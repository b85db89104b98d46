import Nesso.Log.Directories

/-
  What an append does to any directory, whether it succeeds
  or fails in one of its system calls.

  Key definitions include:
    * `Disk.Grows`
    * `Wal.Attached`
    * `Wal.Writable`
    * `AppendFault.hits`

  The main theorems are:
    * `Disk.Grows.entries_eq`
    * `Wal.Writable.append_ok`
    * `Wal.Writable.append_error`
-/

------------------------------------------------------------
-- Growing Segments
------------------------------------------------------------

namespace Nesso

/-
  One segment got some more bytes, and was created if it was
  not there; no other file changed.
-/
structure Disk.Grows
    (disk next : Disk)
    (target : Nat)
    (bytes : Bytes) : Prop where
  read_eq :
    ∀ name,
      next.read name =
        if name = .wal target then
          some ((disk.read (.wal target)).getD [] ++ bytes)
        else disk.read name
  lookup_of_lookup :
    ∀ {name inode},
      disk.lookup name = some inode →
        next.lookup name = some inode

namespace Disk.Grows

variable {disk middle next : Disk} {target : Nat}
variable {left right : Bytes}

theorem refl
    {content : Bytes}
    (hRead : disk.read (.wal target) = some content) :
    disk.Grows disk target [] where
  read_eq := by
    intro name
    by_cases hName : name = .wal target
    · simp [hName, hRead]
    · simp [hName]
  lookup_of_lookup := fun hLookup => hLookup

theorem trans
    (hLeft : disk.Grows middle target left)
    (hRight : middle.Grows next target right) :
    disk.Grows next target (left ++ right) where
  read_eq := by
    intro name
    rw [hRight.read_eq, hLeft.read_eq, hLeft.read_eq]
    by_cases hName : name = .wal target
    · simp [hName]
    · simp [hName]
  lookup_of_lookup := fun hLookup =>
    hRight.lookup_of_lookup (hLeft.lookup_of_lookup hLookup)

theorem extends_disk
    (hGrows : disk.Grows next target left) :
    disk.Extends next where
  lookup_of_lookup := hGrows.lookup_of_lookup
  read_other := by
    intro name hName
    rw [hGrows.read_eq, if_neg]
    intro hEq
    simp [hEq, FileName.segmentId?] at hName

theorem mem_segmentIds_iff
    (hGrows : disk.Grows next target left)
    {segmentId : Nat} :
    segmentId ∈ next.segmentIds ↔
      segmentId = target ∨ segmentId ∈ disk.segmentIds := by
  rw [Disk.mem_segmentIds_iff, Disk.mem_segmentIds_iff]
  simp only [hGrows.read_eq, FileName.wal.injEq]
  by_cases hEq : segmentId = target
  · simp [hEq]
  · simp [hEq]

end Disk.Grows

end Nesso

------------------------------------------------------------
-- Records of a Growing Directory
------------------------------------------------------------

namespace Nesso

variable [Hasher]

/- A segment without a torn tail is a list of frames. -/
theorem exists_encodeRecords_of_whole
    {content : Bytes}
    (hWhole :
      Framing.validLength frameParser content =
        content.length) :
    ∃ records,
      (∀ record ∈ records, record.Fits) ∧
        content = encodeRecords records := by
  rcases frameCodec_exact.split content with
    ⟨records, rest, hRecords, hContent, hStop⟩
  have hLength :=
    Framing.Codec.validLength_of_stop hRecords hStop
  rw [← hContent] at hLength
  have hRest : rest = [] := by
    have hTotal := congrArg List.length hContent
    rw [List.length_append, ← hLength] at hTotal
    apply List.length_eq_zero_iff.mp
    change content.length =
      Framing.validLength frameParser content + _ at hTotal
    omega
  refine ⟨records, hRecords, ?_⟩
  rw [hContent, hRest, List.append_nil]
  rfl

theorem encodeRecords_append_singleton
    (records : List Record)
    (record : Record) :
    encodeRecords (records ++ [record]) =
      encodeRecords records ++ record.encode := by
  simp [encodeRecords]

/- Whole frames stay whole when a frame is added. -/
theorem whole_append_encode
    {content : Bytes}
    (hWhole :
      Framing.validLength frameParser content =
        content.length)
    {record : Record}
    (hFits : record.Fits) :
    Framing.validLength frameParser
        (content ++ record.encode) =
      (content ++ record.encode).length := by
  rcases exists_encodeRecords_of_whole hWhole with
    ⟨records, hRecords, hContent⟩
  have hAll :
      ∀ item ∈ records ++ [record], item.Fits :=
    List.forall_mem_append.mpr
      ⟨hRecords, by simpa using hFits⟩
  have hLength := validLength_encodeRecords_append hAll []
  have hNil : Framing.validLength frameParser [] = 0 :=
    Framing.validLength_eq_zero rfl
  rw [hContent, ← encodeRecords_append_singleton]
  simpa [hNil] using hLength

/- The new frame is found behind the others. -/
theorem segmentRecords_append_encode
    {content : Bytes}
    (hWhole :
      Framing.validLength frameParser content =
        content.length)
    {record : Record}
    (hFits : record.Fits) :
    segmentRecords (content ++ record.encode) =
      segmentRecords content ++
        [(content.length, record)] := by
  rcases exists_encodeRecords_of_whole hWhole with
    ⟨records, hRecords, hContent⟩
  have hAll :
      ∀ item ∈ records ++ [record], item.Fits :=
    List.forall_mem_append.mpr
      ⟨hRecords, by simpa using hFits⟩
  rw [hContent, ← encodeRecords_append_singleton,
    segmentRecords_encodeRecords hAll,
    segmentRecords_encodeRecords hRecords,
    Framing.located_append]
  simp [Framing.located, encodeRecords]

namespace Wal

/- The records below a segment, and those of the segment. -/
theorem entries_eq_below
    {disk : Disk}
    {target : Nat}
    (hLe :
      ∀ segmentId ∈ disk.segmentIds, segmentId ≤ target) :
    Wal.entries disk =
      entriesIn disk
          (disk.segmentIds.filter (· < target)) ++
        segmentEntries target
          ((disk.read (.wal target)).getD []) := by
  have hSorted := Disk.segmentIds_pairwise_lt disk
  have hEmpty :
      segmentEntries target ([] : Bytes) = [] := by
    simp [segmentEntries, segmentRecords,
      Framing.scan_eq_nil
        (Framing.Parser.parse_nil frameParser)]
  by_cases hMem : target ∈ disk.segmentIds
  · have hIds :
        disk.segmentIds =
          disk.segmentIds.filter (· < target) ++
            [target] := by
      apply hSorted.eq_of_mem_iff
      · rw [List.pairwise_append]
        refine ⟨hSorted.filter _, by simp, ?_⟩
        intro segmentId hBelow last hLast
        rw [List.mem_singleton.mp hLast]
        simpa using (List.mem_filter.mp hBelow).2
      · intro segmentId
        simp only [List.mem_append, List.mem_filter,
          List.mem_singleton, decide_eq_true_eq]
        constructor
        · intro hIn
          rcases Nat.lt_or_eq_of_le (hLe _ hIn) with
            hLt | hEq
          · exact .inl ⟨hIn, hLt⟩
          · exact .inr hEq
        · intro hIn
          rcases hIn with hBelow | hEq
          · exact hBelow.1
          · rw [hEq]
            exact hMem
    change entriesIn disk disk.segmentIds = _
    rw [entriesIn, hIds, List.flatMap_append, ← hIds]
    simp [entriesIn]
  · have hIds :
        disk.segmentIds.filter (· < target) =
          disk.segmentIds := by
      apply List.filter_eq_self.mpr
      intro segmentId hIn
      have hSegment := hLe segmentId hIn
      have hNe : segmentId ≠ target := by
        intro hEq
        exact hMem (hEq ▸ hIn)
      simp only [decide_eq_true_eq]
      omega
    have hNone : disk.read (.wal target) = none := by
      by_contra hSome
      rcases Option.ne_none_iff_exists'.mp hSome with
        ⟨content, hContent⟩
      exact hMem
        (Disk.mem_segmentIds_iff.mpr ⟨content, hContent⟩)
    rw [hIds, hNone, Option.getD_none, hEmpty,
      List.append_nil]
    rfl

end Wal

namespace Disk.Grows

variable {disk next : Disk} {target : Nat} {bytes : Bytes}

/- Only the records of the growing segment change. -/
theorem entries_eq
    (hGrows : disk.Grows next target bytes)
    (hLe :
      ∀ segmentId ∈ disk.segmentIds, segmentId ≤ target) :
    ∃ front,
      Wal.entries disk =
          front ++
            Wal.segmentEntries target
              ((disk.read (.wal target)).getD []) ∧
        Wal.entries next =
          front ++
            Wal.segmentEntries target
              ((disk.read (.wal target)).getD [] ++
                bytes) := by
  have hNextLe :
      ∀ segmentId ∈ next.segmentIds,
        segmentId ≤ target := by
    intro segmentId hMem
    rcases hGrows.mem_segmentIds_iff.mp hMem with
      hEq | hOld
    · exact le_of_eq hEq
    · exact hLe segmentId hOld
  have hIds :
      next.segmentIds.filter (· < target) =
        disk.segmentIds.filter (· < target) := by
    apply
      ((Disk.segmentIds_pairwise_lt next).filter
        _).eq_of_mem_iff
        ((Disk.segmentIds_pairwise_lt disk).filter _)
    intro segmentId
    simp only [List.mem_filter, hGrows.mem_segmentIds_iff,
      decide_eq_true_eq]
    constructor
    · intro hBelow
      refine ⟨?_, hBelow.2⟩
      rcases hBelow.1 with hEq | hOld
      · omega
      · exact hOld
    · intro hBelow
      exact ⟨.inr hBelow.1, hBelow.2⟩
  refine ⟨_, Wal.entries_eq_below hLe, ?_⟩
  rw [Wal.entries_eq_below hNextLe, hIds, hGrows.read_eq,
    if_pos rfl, Option.getD_some]
  congr 1
  apply List.flatMap_congr
  intro segmentId hMem
  have hNe : segmentId ≠ target := by
    have hLt := (List.mem_filter.mp hMem).2
    simp only [decide_eq_true_eq] at hLt
    omega
  rw [hGrows.read_eq, if_neg (by simpa using hNe)]

/- An empty segment holds no records. -/
theorem entries_of_nil
    (hGrows : disk.Grows next target [])
    (hLe :
      ∀ segmentId ∈ disk.segmentIds, segmentId ≤ target) :
    Wal.entries next = Wal.entries disk := by
  rcases hGrows.entries_eq hLe with ⟨front, hDisk, hNext⟩
  rw [hNext, hDisk, List.append_nil]

/- A frame behind whole frames is one more record. -/
theorem entries_of_encode
    {record : Record}
    (hGrows : disk.Grows next target record.encode)
    (hLe :
      ∀ segmentId ∈ disk.segmentIds, segmentId ≤ target)
    (hWhole :
      Framing.validLength frameParser
          ((disk.read (.wal target)).getD []) =
        ((disk.read (.wal target)).getD []).length)
    (hFits : record.Fits) :
    Wal.entries next =
      Wal.entries disk ++
        [(toLex
          (target,
            ((disk.read (.wal target)).getD []).length),
          record)] := by
  rcases hGrows.entries_eq hLe with ⟨front, hDisk, hNext⟩
  rw [hNext, hDisk, Wal.segmentEntries,
    segmentRecords_append_encode hWhole hFits,
    List.map_append, ← List.append_assoc]
  rfl

end Disk.Grows

end Nesso

------------------------------------------------------------
-- Appending to Any Directory
------------------------------------------------------------

namespace Nesso

/- Whether an append gets to the failing system call. -/
def AppendFault.hits
    (wal : Wal) : AppendFault → Bool
| .rotateSync | .rotateOpen => wal.rotates
| .write _ => true

namespace Wal

/-
  The counters of the writer agree with the directory.  After
  a failed rotation the segment number runs ahead of the open
  file, which is full then and is not written any more.
-/
structure Attached
    (disk : Disk)
    (wal : Wal) : Prop where
  ids_le :
    ∀ segmentId ∈ disk.segmentIds,
      segmentId ≤ wal.activeSegmentId
  size_eq :
    (disk.contentOf wal.activeFile).length =
      wal.currentSize
  lookup_eq :
    wal.rotates = false →
      disk.lookup (.wal wal.activeSegmentId) =
        some wal.activeFile

/- The writer is about to write to its active segment. -/
structure Opened
    (disk : Disk)
    (wal : Wal) : Prop where
  ids_le :
    ∀ segmentId ∈ disk.segmentIds,
      segmentId ≤ wal.activeSegmentId
  size_eq :
    (disk.contentOf wal.activeFile).length =
      wal.currentSize
  lookup_eq :
    disk.lookup (.wal wal.activeSegmentId) =
      some wal.activeFile

variable {disk : Disk} {wal : Wal}

theorem Opened.attached
    (hOpened : wal.Opened disk) :
    wal.Attached disk where
  ids_le := hOpened.ids_le
  size_eq := hOpened.size_eq
  lookup_eq := fun _ => hOpened.lookup_eq

theorem Opened.read_active
    (hOpened : wal.Opened disk) :
    disk.read (.wal wal.activeSegmentId) =
      some (disk.contentOf wal.activeFile) :=
  FileSystem.read_eq_some_iff.mpr
    ⟨_, hOpened.lookup_eq, rfl⟩

/-
  What an append relies on: a segment that is not full is the
  last one, and it is the open file.
-/
structure Writable
    (disk : Disk)
    (wal : Wal) : Prop where
  ids_le :
    ∀ segmentId ∈ disk.segmentIds,
      segmentId ≤ wal.activeSegmentId
  opened : wal.rotates = false → wal.Opened disk

theorem Attached.writable
    (hAttached : wal.Attached disk) :
    wal.Writable disk where
  ids_le := hAttached.ids_le
  opened := fun hRotates =>
    ⟨hAttached.ids_le, hAttached.size_eq,
      hAttached.lookup_eq hRotates⟩

/- The segment of a rotation does not exist yet. -/
theorem Writable.read_next_eq_none
    (hWritable : wal.Writable disk) :
    disk.read (.wal (wal.activeSegmentId + 1)) = none := by
  by_contra hSome
  rcases Option.ne_none_iff_exists'.mp hSome with
    ⟨content, hContent⟩
  have hLe :=
    hWritable.ids_le _
      (Disk.mem_segmentIds_iff.mpr ⟨content, hContent⟩)
  omega

/- Segment numbers never go down. -/
theorem activeSegmentId_le_nextLoc
    (wal : Wal) :
    wal.activeSegmentId ≤ (ofLex wal.nextLoc).1 := by
  unfold nextLoc
  split <;> simp

/- No segment lies behind the next location. -/
theorem Writable.ids_le_nextLoc
    (hWritable : wal.Writable disk) :
    ∀ segmentId ∈ disk.segmentIds,
      segmentId ≤ (ofLex wal.nextLoc).1 := by
  intro segmentId hMem
  have hLe := hWritable.ids_le segmentId hMem
  unfold nextLoc
  cases wal.rotates with
  | true =>
      simp only [if_true, ofLex_toLex]
      omega
  | false => simpa using hLe

/- The next location is the end of its segment. -/
theorem Writable.nextLoc_eq
    (hWritable : wal.Writable disk) :
    wal.nextLoc =
      toLex
        ((ofLex wal.nextLoc).1,
          ((disk.read
            (.wal (ofLex wal.nextLoc).1)).getD
              []).length) := by
  unfold nextLoc
  cases hRotates : wal.rotates with
  | true =>
      simp [hWritable.read_next_eq_none]
  | false =>
      have hOpened := hWritable.opened hRotates
      simp [hOpened.read_active, hOpened.size_eq]

/- A rotation that succeeds, or is not needed. -/
theorem Writable.rotateIfFull_ok
    (hWritable : wal.Writable disk)
    {fault : Option AppendFault}
    (hFault :
      ∀ found ∈ fault,
        wal.rotates = true → ∃ written,
          found = .write written) :
    ∃ next nextWal,
      rotateIfFull fault disk wal =
          (.ok (), next, nextWal) ∧
        nextWal.Opened next ∧
        disk.Grows next (ofLex wal.nextLoc).1 [] ∧
        nextWal.activeSegmentId = (ofLex wal.nextLoc).1 ∧
        nextWal.currentSize = (ofLex wal.nextLoc).2 := by
  unfold rotateIfFull
  by_cases hFull : wal.maxSegmentSize ≤ wal.currentSize
  · have hRotates : wal.rotates = true := by
      simp [rotates, hFull]
    have hSync : fault ≠ some .rotateSync := by
      intro hEq
      rcases hFault _ hEq hRotates with ⟨written, hFound⟩
      simp at hFound
    have hOpen : fault ≠ some .rotateOpen := by
      intro hEq
      rcases hFault _ hEq hRotates with ⟨written, hFound⟩
      simp at hFound
    have hNone := hWritable.read_next_eq_none
    have hGrows :
        disk.Grows
          (disk.create
            (.wal (wal.activeSegmentId + 1))).1
          (wal.activeSegmentId + 1) [] := by
      constructor
      · intro name
        rw [FileSystem.read_create, List.append_nil]
      · intro name inode hLookup
        exact FileSystem.lookup_create_of_lookup hLookup _
    have hCreated :=
      FileSystem.lookup_create_self disk
        (.wal (wal.activeSegmentId + 1))
    have hContent :
        (disk.create
            (.wal (wal.activeSegmentId + 1))).1.contentOf
          (disk.create
            (.wal (wal.activeSegmentId + 1))).2 = [] := by
      have hRead :=
        hGrows.read_eq (.wal (wal.activeSegmentId + 1))
      rw [if_pos rfl, hNone] at hRead
      simpa [FileSystem.read, hCreated] using hRead
    simp only [if_pos hFull, rotate, if_neg hSync,
      if_neg hOpen]
    refine ⟨_, _, rfl, ?_, ?_, ?_, ?_⟩
    · constructor
      · intro segmentId hMem
        rcases hGrows.mem_segmentIds_iff.mp hMem with
          hEq | hOld
        · exact le_of_eq hEq
        · have hLe := hWritable.ids_le segmentId hOld
          simp only
          omega
      · simp [hContent]
      · exact hCreated
    · simpa [nextLoc, hRotates] using hGrows
    · simp [nextLoc, hRotates]
    · simp [nextLoc, hRotates]
  · have hRotates : wal.rotates = false := by
      simp [rotates, hFull]
    have hOpened := hWritable.opened hRotates
    refine ⟨disk, wal, by simp [hFull], hOpened, ?_, ?_, ?_⟩
    · simpa [nextLoc, hRotates] using
        Disk.Grows.refl hOpened.read_active
    · simp [nextLoc, hRotates]
    · simp [nextLoc, hRotates]

/- A frame goes to the end of the active segment. -/
theorem Opened.writeFrame_ok [Hasher]
    (hOpened : wal.Opened disk)
    {fault : Option AppendFault}
    (hFault : ∀ written, fault ≠ some (.write written))
    (record : Record) :
    ∃ next nextWal,
      writeFrame fault disk wal record =
          (.ok (toLex
              (wal.activeSegmentId, wal.currentSize)),
            next, nextWal) ∧
        nextWal.Attached next ∧
        disk.Grows next wal.activeSegmentId record.encode ∧
        nextWal.activeSegmentId = wal.activeSegmentId := by
  have hLt := disk.names_lt hOpened.lookup_eq
  have hGrows :
      disk.Grows (disk.append wal.activeFile record.encode)
        wal.activeSegmentId record.encode := by
    constructor
    · intro name
      rw [FileSystem.read_append hOpened.lookup_eq,
        hOpened.read_active]
      rfl
    · intro name inode hLookup
      exact hLookup
  unfold writeFrame
  split
  · next written => exact (hFault written rfl).elim
  · refine ⟨_, _, rfl, ?_, hGrows, rfl⟩
    constructor
    · intro segmentId hMem
      rcases hGrows.mem_segmentIds_iff.mp hMem with
        hEq | hOld
      · exact le_of_eq hEq
      · exact hOpened.ids_le segmentId hOld
    · simp [FileSystem.append,
        FileSystem.contentOf_modify hLt, hOpened.size_eq]
    · intro _
      exact hOpened.lookup_eq

/- A partial write is rolled back. -/
theorem Opened.writeFrame_error [Hasher]
    (hOpened : wal.Opened disk)
    (written : Nat)
    (record : Record) :
    ∃ next,
      writeFrame (some (.write written)) disk wal record =
          (.error ioFailure, next, wal) ∧
        wal.Opened next ∧
        disk.Grows next wal.activeSegmentId [] := by
  have hLt := disk.names_lt hOpened.lookup_eq
  let partly :=
    disk.append wal.activeFile (record.encode.take written)
  have hPartly :
      partly.lookup (.wal wal.activeSegmentId) =
        some wal.activeFile := hOpened.lookup_eq
  have hContent :
      (partly.truncate wal.activeFile
          wal.currentSize).contentOf wal.activeFile =
        disk.contentOf wal.activeFile := by
    rw [FileSystem.truncate,
      FileSystem.contentOf_modify (partly.names_lt hPartly)]
    simp [partly, FileSystem.append,
      FileSystem.contentOf_modify hLt, ← hOpened.size_eq]
  have hGrows :
      disk.Grows
        (partly.truncate wal.activeFile wal.currentSize)
        wal.activeSegmentId [] := by
    constructor
    · intro name
      rw [FileSystem.read_truncate hPartly,
        FileSystem.read_append hOpened.lookup_eq,
        FileSystem.read_append hOpened.lookup_eq,
        hOpened.read_active]
      by_cases hName : name = .wal wal.activeSegmentId
      · simp [hName, ← hOpened.size_eq]
      · simp [hName]
    · intro name inode hLookup
      exact hLookup
  refine ⟨_, rfl, ?_, hGrows⟩
  constructor
  · intro segmentId hMem
    rcases hGrows.mem_segmentIds_iff.mp hMem with
      hEq | hOld
    · exact le_of_eq hEq
    · exact hOpened.ids_le segmentId hOld
  · rw [hContent]
    exact hOpened.size_eq
  · exact hOpened.lookup_eq

/- An append that meets no fault adds its frame. -/
theorem Writable.append_ok [Hasher]
    (hWritable : wal.Writable disk)
    {fault : Option AppendFault}
    (hFault : ∀ found ∈ fault, found.hits wal = false)
    (record : Record) :
    ∃ next nextWal,
      Wal.append fault disk wal record =
          (.ok wal.nextLoc, next, nextWal) ∧
        nextWal.Attached next ∧
        disk.Grows next (ofLex wal.nextLoc).1
          record.encode ∧
        wal.activeSegmentId ≤ nextWal.activeSegmentId := by
  have hWrite :
      ∀ written, fault ≠ some (.write written) := by
    intro written hEq
    have hHits := hFault _ hEq
    simp [AppendFault.hits] at hHits
  have hRotate :
      ∀ found ∈ fault,
        wal.rotates = true → ∃ written,
          found = .write written := by
    intro found hFound hRotates
    have hHits := hFault found hFound
    cases found with
    | rotateSync =>
        simp [AppendFault.hits, hRotates] at hHits
    | rotateOpen =>
        simp [AppendFault.hits, hRotates] at hHits
    | write written => exact ⟨written, rfl⟩
  rcases hWritable.rotateIfFull_ok hRotate with
    ⟨middle, middleWal, hMiddle, hOpened, hFirst, hId,
      hSize⟩
  rcases hOpened.writeFrame_ok hWrite record with
    ⟨next, nextWal, hNext, hNextAttached, hSecond, hNextId⟩
  rw [hId] at hSecond
  refine ⟨next, nextWal, ?_, hNextAttached, ?_, ?_⟩
  · rw [Wal.append, hMiddle]
    simp only [hNext, hId, hSize]
    rfl
  · exact hFirst.trans hSecond
  · rw [hNextId, hId]
    exact wal.activeSegmentId_le_nextLoc

/-
  A failed append leaves every file as it was, but for an
  empty segment that a rotation may have started.
-/
theorem Writable.append_error [Hasher]
    (hWritable : wal.Writable disk)
    {fault : AppendFault}
    (hHits : fault.hits wal = true)
    (record : Record) :
    ∃ next nextWal,
      Wal.append (some fault) disk wal record =
          (.error ioFailure, next, nextWal) ∧
        nextWal.Writable next ∧
        (wal.Attached disk → nextWal.Attached next) ∧
        (next = disk ∨
          disk.Grows next (ofLex wal.nextLoc).1 []) ∧
        wal.activeSegmentId ≤ nextWal.activeSegmentId := by
  cases fault with
  | rotateSync =>
      have hRotates : wal.rotates = true := hHits
      have hFull :
          wal.maxSegmentSize ≤ wal.currentSize := by
        simpa [rotates] using hRotates
      refine ⟨disk, wal, ?_, hWritable,
        fun hAttached => hAttached, .inl rfl, le_rfl⟩
      simp [Wal.append, rotateIfFull, hFull, rotate]
  | rotateOpen =>
      have hRotates : wal.rotates = true := hHits
      have hFull :
          wal.maxSegmentSize ≤ wal.currentSize := by
        simpa [rotates] using hRotates
      have hIds :
          ∀ segmentId ∈ disk.segmentIds,
            segmentId ≤ wal.activeSegmentId + 1 := by
        intro segmentId hMem
        exact Nat.le_succ_of_le
          (hWritable.ids_le segmentId hMem)
      refine ⟨disk,
        { wal with
          activeSegmentId := wal.activeSegmentId + 1 },
        ?_, ?_, ?_, .inl rfl, Nat.le_succ _⟩
      · simp [Wal.append, rotateIfFull, hFull, rotate]
      · refine ⟨hIds, ?_⟩
        intro hNot
        simp [rotates, hFull] at hNot
      · intro hAttached
        refine ⟨hIds, hAttached.size_eq, ?_⟩
        intro hNot
        simp [rotates, hFull] at hNot
  | write written =>
      have hFault :
          ∀ found ∈ some (AppendFault.write written),
            wal.rotates = true → ∃ size,
              found = .write size := by
        simp
      rcases hWritable.rotateIfFull_ok hFault with
        ⟨middle, middleWal, hMiddle, hOpened, hFirst, hId,
          _⟩
      rcases hOpened.writeFrame_error written record with
        ⟨next, hNext, hNextOpened, hSecond⟩
      rw [hId] at hSecond
      refine ⟨next, middleWal, ?_,
        hNextOpened.attached.writable,
        fun _ => hNextOpened.attached, .inr ?_, ?_⟩
      · rw [Wal.append, hMiddle]
        exact hNext
      · simpa using hFirst.trans hSecond
      · rw [hId]
        exact wal.activeSegmentId_le_nextLoc

end Wal

end Nesso
