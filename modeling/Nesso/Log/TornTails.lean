import Nesso.Log.Appending
import Nesso.Log.CompactionCrashes
import Nesso.Storage.Checksum
import Nesso.Storage.Scanners

/-
  Opening a log whose active segment holds arbitrary bytes.

  Key definitions include:
    * `IsFrame`
    * `WholeFrames`
    * `Wal.activeContent`

  The main theorem is:
    * `Wal.open_repairs_torn_tail`
-/

------------------------------------------------------------
-- Concatenations of Frames
------------------------------------------------------------

namespace Nesso

variable [Hasher]

/- A string that decodes and has nothing behind its frame. -/
def IsFrame (bytes : Bytes) : Prop :=
  ∃ record,
    Record.decode bytes = some record ∧
      bytes.length = headerSize + record.payload.length

def WholeFrames (bytes : Bytes) : Prop :=
  ∃ frames : List Bytes,
    (∀ frame ∈ frames, IsFrame frame) ∧
      bytes = frames.flatten

theorem isFrame_iff
    {bytes : Bytes} :
    IsFrame bytes ↔
      ∃ record : Record,
        record.Fits ∧ bytes = record.encode := by
  constructor
  · intro hFrame
    rcases hFrame with ⟨record, hDecode, hLength⟩
    refine ⟨record,
      (Record.decodedFrom_of_decode hDecode).fits, ?_⟩
    rw [Record.encode_eq_take_of_decode hDecode, ← hLength,
      List.take_length]
  · intro hEncoded
    rcases hEncoded with ⟨record, hFits, hBytes⟩
    refine ⟨record, ?_, ?_⟩
    · rw [hBytes, Record.decode_encode hFits]
    · rw [hBytes, Record.length_encode]

theorem wholeFrames_iff
    {bytes : Bytes} :
    WholeFrames bytes ↔
      ∃ records : List Record,
        (∀ record ∈ records, record.Fits) ∧
          bytes = encodeRecords records := by
  constructor
  · intro hWhole
    rcases hWhole with ⟨frames, hFrames, hBytes⟩
    subst hBytes
    induction frames with
    | nil => exact ⟨[], by simp, rfl⟩
    | cons frame frames ih =>
        rcases isFrame_iff.mp (hFrames frame (by simp)) with
          ⟨record, hFits, hFrame⟩
        rcases ih (fun other hOther =>
          hFrames other (by simp [hOther])) with
          ⟨records, hRecords, hRest⟩
        refine ⟨record :: records, ?_, ?_⟩
        · intro item hItem
          rcases List.mem_cons.mp hItem with hEq | hTail
          · rw [hEq]
            exact hFits
          · exact hRecords item hTail
        · rw [List.flatten_cons, hFrame, hRest]
          simp [encodeRecords]
  · intro hEncoded
    rcases hEncoded with ⟨records, hRecords, hBytes⟩
    refine ⟨records.map Record.encode, ?_, ?_⟩
    · intro frame hFrame
      rcases List.mem_map.mp hFrame with
        ⟨record, hRecord, hEq⟩
      exact isFrame_iff.mpr
        ⟨record, hRecords record hRecord, hEq.symm⟩
    · rw [hBytes, encodeRecords, Framing.encodeAll,
        List.flatMap_def]

/- The valid frames are the longest prefix of frames. -/
theorem take_validLength_spec
    (content : Bytes) :
    ∃ records rest,
      (∀ record ∈ records, record.Fits) ∧
        content = encodeRecords records ++ rest ∧
        content.take
            (Framing.validLength frameParser content) =
          encodeRecords records ∧
        (encodeRecords records).length =
          Framing.validLength frameParser content ∧
        Record.decode rest = none := by
  rcases frameCodec_exact.split content with
    ⟨records, rest, hRecords, hContent, hStop⟩
  have hLength :
      Framing.validLength frameParser
          (encodeRecords records ++ rest) =
        (encodeRecords records).length :=
    Framing.Codec.validLength_of_stop hRecords hStop
  have hEq : content = encodeRecords records ++ rest :=
    hContent
  refine ⟨records, rest, hRecords, hEq, ?_, ?_, ?_⟩
  · rw [hEq, hLength, List.take_left]
  · rw [hEq, hLength]
  · cases hDecode : Record.decode rest with
    | none => rfl
    | some record =>
        have hFits : frameCodec.Admissible record :=
          (Record.decodedFrom_of_decode hDecode).fits
        have hFrame :=
          Record.encode_eq_take_of_decode hDecode
        have hParse :=
          frameCodec.parse_encode_append hFits
            (rest.drop (headerSize +
              record.payload.length))
        change parseFrame (record.encode ++ _) = _ at hParse
        rw [hFrame, List.take_append_drop] at hParse
        exact (hStop _ _ hParse).elim

/- What is kept is valid. -/
theorem validLength_take
    (content : Bytes) :
    Framing.validLength frameParser
        (content.take
          (Framing.validLength frameParser content)) =
      Framing.validLength frameParser content := by
  rcases take_validLength_spec content with
    ⟨records, rest, hRecords, _, hTake, hLength, _⟩
  have hNil : Framing.validLength frameParser [] = 0 :=
    Framing.validLength_eq_zero rfl
  have hKept := validLength_encodeRecords_append hRecords []
  rw [List.append_nil, hNil, Nat.add_zero] at hKept
  rw [hTake, hKept, hLength]

end Nesso

------------------------------------------------------------
-- Opening Any Directory
------------------------------------------------------------

namespace Nesso

namespace Wal

/- The active segment is the largest, and at least 1. -/
theorem le_lastSegmentId
    (disk : Disk) :
    1 ≤ lastSegmentId disk ∧
      ∀ segmentId ∈ disk.segmentIds,
        segmentId ≤ lastSegmentId disk := by
  rcases List.eq_nil_or_concat disk.segmentIds with
    hNil | ⟨front, last, hIds⟩
  · simp [lastSegmentId, hNil]
  · rw [List.concat_eq_append] at hIds
    have hSorted := Disk.segmentIds_pairwise_lt disk
    rw [hIds, List.pairwise_append] at hSorted
    have hLe :
        ∀ segmentId ∈ disk.segmentIds,
          segmentId ≤ last := by
      intro segmentId hMem
      simp only [hIds, List.mem_append,
        List.mem_singleton] at hMem
      rcases hMem with hFront | hLast
      · exact le_of_lt
          (hSorted.2.2 segmentId hFront last (by simp))
      · exact le_of_eq hLast
    have hMax : disk.segmentIds.foldl max 0 = last :=
      foldl_max_eq (by simp [hIds]) hLe
    simp only [lastSegmentId, hMax]
    split
    · next hZero =>
        refine ⟨le_refl 1, ?_⟩
        intro segmentId hMem
        have hBound := hLe segmentId hMem
        omega
    · exact ⟨by omega, hLe⟩

/- A segment above all others is the active one. -/
theorem lastSegmentId_eq_of_le
    {disk : Disk}
    {last : Nat}
    (hMem : last ∈ disk.segmentIds)
    (hOne : 1 ≤ last)
    (hLe :
      ∀ segmentId ∈ disk.segmentIds, segmentId ≤ last) :
    lastSegmentId disk = last := by
  have hMax : disk.segmentIds.foldl max 0 = last :=
    foldl_max_eq hMem hLe
  have hNe : last ≠ 0 := by omega
  simp [lastSegmentId, hMax, hNe]

variable [Hasher]

/- What `open` finds in the active segment. -/
def activeContent (disk : Disk) : Bytes :=
  ((sweep disk).read
    (.wal (lastSegmentId (sweep disk)))).getD []

theorem open_eq_activate
    (disk : Disk)
    (maxSegmentSize : Option Nat) :
    (Wal.open disk maxSegmentSize).1 =
      (sweep disk).execAll (activateSteps (sweep disk)) := by
  simp only [Wal.open, openSteps,
    FileSystem.execAll_append]
  rfl

/- Opening cuts the active segment to its valid frames. -/
theorem read_open_sweep
    (disk : Disk)
    (maxSegmentSize : Option Nat)
    (name : FileName) :
    (Wal.open disk maxSegmentSize).1.read name =
      if name = .wal (lastSegmentId (sweep disk)) then
        some ((activeContent disk).take
          (validOffset (sweep disk)))
      else (sweep disk).read name := by
  rw [open_eq_activate, read_activate]
  rfl

theorem validOffset_le
    (disk : Disk) :
    validOffset (sweep disk) ≤
      (activeContent disk).length := by
  rcases take_validLength_spec (activeContent disk) with
    ⟨records, rest, _, hContent, _, hLength, _⟩
  change Framing.validLength frameParser
    (activeContent disk) ≤ _
  rw [← hLength, hContent, List.length_append]
  exact Nat.le_add_right _ _

/- The opened writer is at the end of its segment. -/
theorem opened_open
    (disk : Disk)
    (maxSegmentSize : Option Nat) :
    (Wal.open disk maxSegmentSize).2.Opened
      (Wal.open disk maxSegmentSize).1 := by
  have hRead :=
    read_open_sweep disk maxSegmentSize
      (.wal (lastSegmentId (sweep disk)))
  rw [if_pos rfl] at hRead
  rcases FileSystem.read_eq_some_iff.mp hRead with
    ⟨inode, hLookup, hContent⟩
  have hFile :
      (Wal.open disk maxSegmentSize).2.activeFile =
        inode := by
    change ((Wal.open disk maxSegmentSize).1.lookup
      (.wal (lastSegmentId (sweep disk)))).getD 0 = inode
    rw [hLookup, Option.getD_some]
  constructor
  · intro segmentId hMem
    change segmentId ≤ lastSegmentId (sweep disk)
    rcases Disk.mem_segmentIds_iff.mp hMem with
      ⟨content, hSegment⟩
    rw [read_open_sweep] at hSegment
    split at hSegment
    · next hName =>
        simp only [FileName.wal.injEq] at hName
        exact le_of_eq hName
    · exact (le_lastSegmentId (sweep disk)).2 segmentId
        (Disk.mem_segmentIds_iff.mpr ⟨content, hSegment⟩)
  · rw [hFile, hContent, List.length_take,
      Nat.min_eq_left (validOffset_le disk)]
    rfl
  · rw [hFile]
    exact hLookup

end Wal

end Nesso

------------------------------------------------------------
-- Torn Tails
------------------------------------------------------------

namespace Nesso

variable [Hasher]

namespace Wal

/- A second opening finds nothing to repair. -/
theorem open_open
    {disk : Disk}
    (hSwap : disk.read .compactionSwap = none)
    (maxSegmentSize again : Option Nat) :
    (∀ name,
      (Wal.open (Wal.open disk maxSegmentSize).1
          again).1.read name =
        (Wal.open disk maxSegmentSize).1.read name) ∧
      (Wal.open (Wal.open disk maxSegmentSize).1
          again).2.activeSegmentId =
        (Wal.open disk maxSegmentSize).2.activeSegmentId ∧
      (Wal.open (Wal.open disk maxSegmentSize).1
          again).2.currentSize =
        (Wal.open disk maxSegmentSize).2.currentSize := by
  have hClean :
      (Wal.open disk maxSegmentSize).1.Clean := by
    intro name hName
    rw [read_open_sweep, if_neg]
    · exact clean_sweep hSwap name hName
    · intro hEq
      simp [hEq, FileName.segmentId?] at hName
  have hSweep := sweep_of_clean hClean
  have hActive :
      (Wal.open disk maxSegmentSize).1.read
          (.wal (lastSegmentId (sweep disk))) =
        some ((activeContent disk).take
          (validOffset (sweep disk))) := by
    rw [read_open_sweep, if_pos rfl]
  have hLast :
      lastSegmentId (Wal.open disk maxSegmentSize).1 =
        lastSegmentId (sweep disk) := by
    apply lastSegmentId_eq_of_le
    · exact Disk.mem_segmentIds_iff.mpr ⟨_, hActive⟩
    · exact (le_lastSegmentId _).1
    · exact (opened_open disk maxSegmentSize).ids_le
  have hContent :
      activeContent (Wal.open disk maxSegmentSize).1 =
        (activeContent disk).take
          (validOffset (sweep disk)) := by
    rw [activeContent, hSweep, hLast, hActive,
      Option.getD_some]
  have hValid :
      validOffset (sweep
          (Wal.open disk maxSegmentSize).1) =
        validOffset (sweep disk) := by
    change Framing.validLength frameParser
      (activeContent (Wal.open disk maxSegmentSize).1) = _
    rw [hContent]
    exact validLength_take (activeContent disk)
  refine ⟨?_, ?_, ?_⟩
  · intro name
    rw [read_open_sweep (Wal.open disk maxSegmentSize).1,
      hValid, hContent, hSweep, hLast, List.take_take,
      Nat.min_self]
    split
    · next hName => rw [hName, hActive]
    · rfl
  · change lastSegmentId (sweep _) = _
    rw [hSweep, hLast]
    rfl
  · exact hValid

/- A record appended after opening comes right behind. -/
theorem entries_append_open
    (disk : Disk)
    (maxSegmentSize : Option Nat)
    {record : Record}
    (hFits : record.Fits) :
    ∃ loc next nextWal,
      Wal.append none (Wal.open disk maxSegmentSize).1
          (Wal.open disk maxSegmentSize).2 record =
        (.ok loc, next, nextWal) ∧
      Wal.entries next =
        Wal.entries (Wal.open disk maxSegmentSize).1 ++
          [(loc, record)] := by
  have hOpened := opened_open disk maxSegmentSize
  have hWritable := hOpened.attached.writable
  have hFault :
      ∀ found ∈ (none : Option AppendFault),
        found.hits (Wal.open disk maxSegmentSize).2 =
          false := by
    simp
  rcases hWritable.append_ok hFault record with
    ⟨next, nextWal, hAppend, _, hGrows, _⟩
  have hWhole :
      Framing.validLength frameParser
          (((Wal.open disk maxSegmentSize).1.read
            (.wal (ofLex (Wal.open disk
              maxSegmentSize).2.nextLoc).1)).getD []) =
        (((Wal.open disk maxSegmentSize).1.read
            (.wal (ofLex (Wal.open disk
              maxSegmentSize).2.nextLoc).1)).getD
                []).length := by
    unfold nextLoc
    split
    · simp only [ofLex_toLex]
      rw [hWritable.read_next_eq_none]
      exact Framing.validLength_eq_zero rfl
    · change Framing.validLength frameParser
        (((Wal.open disk maxSegmentSize).1.read
          (.wal (lastSegmentId (sweep disk)))).getD []) =
        (((Wal.open disk maxSegmentSize).1.read
          (.wal (lastSegmentId (sweep disk)))).getD
            []).length
      rw [read_open_sweep, if_pos rfl, Option.getD_some,
        List.length_take,
        Nat.min_eq_left (validOffset_le disk)]
      exact validLength_take (activeContent disk)
  refine ⟨_, next, nextWal, hAppend, ?_⟩
  rw [hGrows.entries_of_encode hWritable.ids_le_nextLoc
    hWhole hFits, ← hWritable.nextLoc_eq]

/-
  Whatever the active segment contains, opening keeps the
  longest prefix of frames that decode.
-/
theorem open_repairs_torn_tail
    (disk : Disk)
    (maxSegmentSize : Option Nat) :
    ∃ kept : Bytes,
      (Wal.open disk maxSegmentSize).1.read
          (.wal (Wal.open disk
            maxSegmentSize).2.activeSegmentId) =
        some kept ∧
      (Wal.open disk maxSegmentSize).2.currentSize =
        kept.length ∧
      scanActive (.open (activeContent disk)) 0
          (activeContent disk).length = kept.length ∧
      kept <+: activeContent disk ∧
      WholeFrames kept ∧
      (∀ bytes, WholeFrames bytes →
        bytes <+: activeContent disk → bytes <+: kept) ∧
      (∀ records (last : Record) torn,
        (∀ record ∈ records, record.Fits) → last.Fits →
          torn <+: last.encode → torn ≠ last.encode →
            activeContent disk =
                encodeRecords records ++ torn →
              kept = encodeRecords records) ∧
      (disk.read .compactionSwap = none → ∀ again,
        (∀ name,
          (Wal.open (Wal.open disk maxSegmentSize).1
              again).1.read name =
            (Wal.open disk maxSegmentSize).1.read name) ∧
        (Wal.open (Wal.open disk maxSegmentSize).1
            again).2.activeSegmentId =
          (Wal.open disk
            maxSegmentSize).2.activeSegmentId ∧
        (Wal.open (Wal.open disk maxSegmentSize).1
            again).2.currentSize =
          (Wal.open disk maxSegmentSize).2.currentSize) ∧
      (∀ record : Record, record.Fits →
        ∃ loc next nextWal,
          Wal.append none (Wal.open disk maxSegmentSize).1
              (Wal.open disk maxSegmentSize).2 record =
            (.ok loc, next, nextWal) ∧
          (iterAll next).2 =
            (iterAll (Wal.open disk maxSegmentSize).1).2 ++
              [(loc, record)]) := by
  rcases take_validLength_spec (activeContent disk) with
    ⟨kept, rest, hKept, hContent, hTake, hLength, hStop⟩
  refine ⟨encodeRecords kept, ?_, ?_, ?_, ?_, ?_, ?_, ?_,
    ?_, ?_⟩
  · change (Wal.open disk maxSegmentSize).1.read
      (.wal (lastSegmentId (sweep disk))) = _
    rw [read_open_sweep, if_pos rfl]
    exact congrArg some hTake
  · exact hLength.symm
  · rw [scanActive_open, hLength]
  · exact ⟨rest, hContent.symm⟩
  · exact wholeFrames_iff.mpr ⟨kept, hKept, rfl⟩
  · intro bytes hWhole hPrefix
    rcases wholeFrames_iff.mp hWhole with
      ⟨records, hRecords, hBytes⟩
    rcases hPrefix with ⟨back, hBack⟩
    have hValid :=
      validLength_encodeRecords_append hRecords back
    rw [← hBytes, hBack] at hValid
    apply List.prefix_of_prefix_length_le
      ⟨back, hBack⟩ ⟨rest, hContent.symm⟩
    rw [hLength, hValid]
    exact Nat.le_add_right _ _
  · intro records last torn hRecords hLast hTorn hNe hAll
    have hParse :
        frameParser.parse torn = none :=
      parseFrame_torn hLast hTorn hNe
    have hValid :=
      validLength_encodeRecords_append hRecords torn
    rw [Framing.validLength_eq_zero hParse, Nat.add_zero]
      at hValid
    rw [← hTake, hAll, hValid, List.take_left]
  · intro hSwap again
    exact open_open hSwap maxSegmentSize again
  · intro record hFits
    exact entries_append_open disk maxSegmentSize hFits

end Wal

end Nesso
