import Nesso.Library.FileSystem
import Nesso.Storage.Record

/-
  The segmented write-ahead log (`storage/wal.rs`).

  A queue directory holds numbered segments, and during a
  compaction the temporary segment and the compaction plan.
  Segment numbers, offsets and file lengths are natural
  numbers: no run can write the 2^64 bytes at which the
  64-bit counters of the source would overflow.

  Key definitions include:
    * `readFrame`
    * `WalReader.readAt`
    * `Wal.open`
    * `Wal.append`
    * `Wal.planCompaction`
    * `Wal.executeCompactionPhase1`
    * `Wal.executeCompactionPhase2`
    * `Wal.iterAll`
-/

------------------------------------------------------------
-- Directory Entries
------------------------------------------------------------

namespace Nesso

/-
  The files of a queue directory: `nesso.{:05}.wal`,
  `nesso.00001.compacting`, `nesso.compaction_plan` and
  `nesso.compaction_swap`.  Other names are ignored by the
  source and never written.
-/
inductive FileName where
| wal (segmentId : Nat)
| compacting
| compactionPlan
| compactionSwap
deriving DecidableEq, Repr

namespace FileName

/- A number for every name, which orders the directory. -/
def code : FileName → Nat
| compacting => 0
| compactionPlan => 1
| compactionSwap => 2
| wal segmentId => segmentId + 3

theorem code_injective : Function.Injective code := by
  intro left right hCode
  cases left <;> cases right <;>
    simp only [code, wal.injEq] at hCode ⊢ <;> omega

instance : Ord FileName where
  compare left right := compare left.code right.code

instance : Std.TransOrd FileName where
  eq_swap := by
    intro left right
    exact Std.OrientedOrd.eq_swap
      (a := left.code) (b := right.code)
  isLE_trans := by
    intro first second third
    exact Std.TransOrd.isLE_trans
      (a := first.code) (b := second.code)
      (c := third.code)

instance : Std.LawfulEqOrd FileName where
  compare_self := by
    intro name
    exact Std.ReflOrd.compare_self (a := name.code)
  eq_of_compare := by
    intro left right hCompare
    exact code_injective
      (Std.LawfulEqOrd.eq_of_compare hCompare)

/- The number parsed from `nesso.{id}.wal`. -/
def segmentId? : FileName → Option Nat
| wal segmentId => some segmentId
| _ => none

end FileName

abbrev Disk :=
  FileSystem FileName UInt8

abbrev DiskStep :=
  FileSystem.Step FileName UInt8

/- A record position: segment number and byte offset. -/
abbrev Loc :=
  Nat ×ₗ Nat

namespace Disk

def contains
    (disk : Disk)
    (name : FileName) : Bool :=
  (disk.lookup name).isSome

/- The segment numbers of `read_dir`, sorted. -/
def segmentIds (disk : Disk) : List Nat :=
  (disk.names.keys.filterMap
    FileName.segmentId?).insertionSort (· ≤ ·)

end Disk

end Nesso

------------------------------------------------------------
-- Errors
------------------------------------------------------------

namespace Nesso

/- The `io::ErrorKind` values the source distinguishes. -/
inductive ErrorKind where
| notFound
| permissionDenied
| invalidData
| other
deriving DecidableEq, Repr

structure IoError where
  kind : ErrorKind
  message : String
deriving DecidableEq, Repr

/- The error of opening a missing file. -/
def IoError.fileNotFound : IoError where
  kind := .notFound
  message := "No such file or directory (os error 2)"

end Nesso

------------------------------------------------------------
-- Frames
------------------------------------------------------------

namespace Nesso

/- What reading one frame at a file position finds. -/
inductive FrameRead where
| shortHeader
| badMagic
| tooLong
| shortPayload
| frame (fullRecord : Bytes)

/-
  The header and length checks that every scanner of the
  source repeats, applied to the bytes from the current
  offset to the end of the file.
-/
def readFrame (rest : Bytes) : FrameRead :=
  if rest.length < headerSize then
    .shortHeader
  else if rest.getD 0 0 ≠ magicByte then
    .badMagic
  else if maxPayloadSize < extractPayloadLen rest then
    .tooLong
  else
    let frameLen := headerSize + extractPayloadLen rest
    if rest.length < frameLen then
      .shortPayload
    else
      .frame (rest.take frameLen)

variable [Hasher]

/-
  One turn of a scanning loop: stop, or read a whole frame
  that may still fail to decode.
-/
def parseFrame
    (rest : Bytes) : Option (Nat × Option Record) :=
  match readFrame rest with
  | .frame fullRecord =>
      some (fullRecord.length, Record.decode fullRecord)
  | _ => none

omit [Hasher] in
/- A whole frame is a non-empty prefix of the input. -/
theorem of_readFrame_eq_frame
    {rest fullRecord : Bytes}
    (hRead : readFrame rest = .frame fullRecord) :
    headerSize ≤ rest.length ∧
      rest.getD 0 0 = magicByte ∧
      extractPayloadLen rest ≤ maxPayloadSize ∧
      headerSize + extractPayloadLen rest ≤ rest.length ∧
      fullRecord =
        rest.take (headerSize + extractPayloadLen rest) := by
  unfold readFrame at hRead
  split at hRead
  · simp at hRead
  · split at hRead
    · simp at hRead
    · split at hRead
      · simp at hRead
      · dsimp only at hRead
        split at hRead
        · simp at hRead
        · simp only [FrameRead.frame.injEq] at hRead
          refine ⟨by omega, by simp_all, by omega,
            by omega, hRead.symm⟩

theorem parseFrame_pos
    {input : Bytes}
    {size : Nat}
    {result : Option Record}
    (hParse : parseFrame input = some (size, result)) :
    0 < size := by
  unfold parseFrame at hParse
  split at hParse
  · next fullRecord hRead =>
      rcases of_readFrame_eq_frame hRead with
        ⟨_, _, _, hLength, rfl⟩
      simp only [Option.some.injEq, Prod.mk.injEq,
        List.length_take] at hParse
      simp only [headerSize] at hLength hParse
      omega
  · simp at hParse

theorem parseFrame_le
    {input : Bytes}
    {size : Nat}
    {result : Option Record}
    (hParse : parseFrame input = some (size, result)) :
    size ≤ input.length := by
  unfold parseFrame at hParse
  split at hParse
  · next fullRecord hRead =>
      rcases of_readFrame_eq_frame hRead with
        ⟨_, _, _, _, rfl⟩
      simp only [Option.some.injEq, Prod.mk.injEq,
        List.length_take] at hParse
      omega
  · simp at hParse

def frameParser : Framing.Parser UInt8 Record where
  parse := parseFrame
  parse_pos := parseFrame_pos
  parse_le := parseFrame_le

/-
  The records a scanner yields from one segment file, with
  their offsets.  It stops at the first bad header and skips
  a whole frame that does not decode.
-/
def segmentRecords
    (content : Bytes) : List (Nat × Record) :=
  Framing.scan frameParser 0 content

end Nesso

------------------------------------------------------------
-- Reading One Record
------------------------------------------------------------

namespace Nesso

/- `MAX_LRU_CACHE_SIZE`. -/
def maxLruCacheSize : Nat := 8

/- Open handles, least recently used first. -/
structure WalReader where
  readCache : List (Nat × Nat)

namespace WalReader

variable [Hasher]

def new : WalReader where
  readCache := []

def clearCache (_reader : WalReader) : WalReader where
  readCache := []

/- The handle for a segment, and the cache after using it. -/
def openHandle
    (reader : WalReader)
    (disk : Disk)
    (segmentId : Nat) : Option (Nat × WalReader) :=
  match reader.readCache.find? (·.1 = segmentId) with
  | some entry =>
      some
        (entry.2,
          ⟨reader.readCache.erase entry ++ [entry]⟩)
  | none =>
      match disk.lookup (.wal segmentId) with
      | none => none
      | some inode =>
          let kept :=
            if maxLruCacheSize ≤ reader.readCache.length then
              reader.readCache.drop 1
            else
              reader.readCache
          some (inode, ⟨kept ++ [(segmentId, inode)]⟩)

/- How `read_at` reports what it finds at an offset. -/
def frameResult :
    FrameRead → Except IoError (Option Record)
| .shortHeader => .ok none
| .badMagic =>
    .error ⟨.invalidData, "Corrupted magic byte"⟩
| .tooLong =>
    .error
      ⟨.invalidData, "Payload length exceeds maximum bound"⟩
| .shortPayload => .ok none
| .frame fullRecord => .ok (Record.decode fullRecord)

def readAt
    (reader : WalReader)
    (disk : Disk)
    (segmentId offset : Nat) :
    Except IoError (Option Record) × WalReader :=
  match reader.openHandle disk segmentId with
  | none => (.error IoError.fileNotFound, reader)
  | some (inode, next) =>
      (frameResult
        (readFrame ((disk.contentOf inode).drop offset)),
        next)

end WalReader

end Nesso

------------------------------------------------------------
-- Compaction Plan Text
------------------------------------------------------------

namespace Nesso

namespace CompactionPlan

/- The bytes of an ASCII text. -/
def toBytes (text : List Char) : Bytes :=
  text.map (fun char => UInt8.ofNat char.toNat)

/- `read_to_string` of an ASCII file. -/
def ofBytes (bytes : Bytes) : List Char :=
  bytes.map (fun byte => Char.ofNat byte.toNat)

/- `str::trim`. -/
def trim (text : List Char) : List Char :=
  ((text.dropWhile Char.isWhitespace).reverse.dropWhile
    Char.isWhitespace).reverse

/- `str::parse::<u64>`: an optional sign and digits. -/
def parseNat? (text : List Char) : Option Nat :=
  let digits :=
    match text with
    | '+' :: digits => digits
    | digits => digits
  if digits ≠ [] ∧ digits.all Char.isDigit then
    some (Nat.ofDigitChars 10 digits 0)
  else
    none

/- Comma-separated segment numbers. -/
def content (closedSegments : List Nat) : Bytes :=
  toBytes
    ([','].intercalate
      (closedSegments.map (Nat.toDigits 10)))

/- The segment numbers a plan file names. -/
def parse (bytes : Bytes) : List Nat :=
  ((trim (ofBytes bytes)).splitOn ',').filterMap
    (fun piece => parseNat? (trim piece))

end CompactionPlan

end Nesso

------------------------------------------------------------
-- Opening the Log
------------------------------------------------------------

namespace Nesso

/- The writing side; the directory itself is the disk. -/
structure Wal where
  activeSegmentId : Nat
  activeFile : Nat
  currentSize : Nat
  maxSegmentSize : Nat

/- 64 MiB. -/
def defaultMaxSegmentSize : Nat := 64 * 1024 * 1024

namespace Wal

variable [Hasher]

/- The plan file that `open` acts on. -/
def activePlan (disk : Disk) : Option FileName :=
  if disk.contains .compactionPlan then
    some .compactionPlan
  else if disk.contains .compactionSwap then
    some .compactionSwap
  else
    none

/- The segments that a plan file asks to unlink. -/
def obsoleteSegments
    (disk : Disk)
    (planFile : FileName) : List Nat :=
  match disk.read planFile with
  | some content =>
      (CompactionPlan.parse content).filter (1 < ·)
  | none => []

/-
  Crash handling for compaction.  A leftover temporary
  segment means the rename never happened; without it the
  unlinking of obsolete segments is completed.
-/
def cleanupSteps (disk : Disk) : List DiskStep :=
  match activePlan disk with
  | none => []
  | some planFile =>
      if disk.contains .compacting then
        [.remove .compacting, .remove planFile]
      else
        (obsoleteSegments disk planFile).map
            (fun segmentId => .remove (.wal segmentId)) ++
          [.remove planFile]

/- The directory scan removes a leftover temporary segment. -/
def sweepSteps (disk : Disk) : List DiskStep :=
  if disk.contains .compacting then
    [.remove .compacting]
  else
    []

/- The highest segment number, starting from 1. -/
def lastSegmentId (disk : Disk) : Nat :=
  let maxId := disk.segmentIds.foldl max 0
  if maxId = 0 then 1 else maxId

/- Bytes of the active segment that are valid frames. -/
def validOffset (disk : Disk) : Nat :=
  Framing.validLength frameParser
    ((disk.read (.wal (lastSegmentId disk))).getD [])

/- Open the active segment and cut off its torn tail. -/
def activateSteps (disk : Disk) : List DiskStep :=
  let name := FileName.wal (lastSegmentId disk)
  let rawSize := ((disk.read name).getD []).length
  .create name ::
    (if validOffset disk < rawSize then
      [.truncate name (validOffset disk), .sync name]
    else
      [])

/- The directory once leftovers are removed. -/
def sweep (disk : Disk) : Disk :=
  let cleaned := disk.execAll (cleanupSteps disk)
  cleaned.execAll (sweepSteps cleaned)

/- All file system steps of `open`, in program order. -/
def openSteps (disk : Disk) : List DiskStep :=
  cleanupSteps disk ++
    (sweepSteps (disk.execAll (cleanupSteps disk)) ++
      activateSteps (sweep disk))

def «open»
    (disk : Disk)
    (maxSegmentSize : Option Nat) : Disk × Wal :=
  let opened := disk.execAll (openSteps disk)
  let maxId := lastSegmentId (sweep disk)
  (opened,
    { activeSegmentId := maxId
      activeFile := (opened.lookup (.wal maxId)).getD 0
      currentSize := validOffset (sweep disk)
      maxSegmentSize :=
        maxSegmentSize.getD defaultMaxSegmentSize })

end Wal

end Nesso

------------------------------------------------------------
-- Appending
------------------------------------------------------------

namespace Nesso

/-
  The ways an append can fail: the fsync of the segment that
  is rotated out, the opening of the next one, or the write,
  of which some prefix reached the file before it was rolled
  back.
-/
inductive AppendFault where
| rotateSync
| rotateOpen
| write (written : Nat)
deriving DecidableEq, Repr

namespace Wal

variable [Hasher]

/- The error of a failed system call. -/
def ioFailure : IoError where
  kind := .other
  message := "input/output error"

def rotate
    (fault : Option AppendFault)
    (disk : Disk)
    (wal : Wal) : Except IoError Unit × Disk × Wal :=
  if fault = some .rotateSync then
    (.error ioFailure, disk, wal)
  else
    let nextId := wal.activeSegmentId + 1
    if fault = some .rotateOpen then
      (.error ioFailure, disk,
        { wal with activeSegmentId := nextId })
    else
      let created := disk.create (.wal nextId)
      (.ok (), created.1,
        { wal with
          activeSegmentId := nextId
          activeFile := created.2
          currentSize := 0 })

/- Rotate when the active segment is full. -/
def rotateIfFull
    (fault : Option AppendFault)
    (disk : Disk)
    (wal : Wal) : Except IoError Unit × Disk × Wal :=
  if wal.maxSegmentSize ≤ wal.currentSize then
    rotate fault disk wal
  else
    (.ok (), disk, wal)

/- Write one frame, or roll a failed write back. -/
def writeFrame
    (fault : Option AppendFault)
    (disk : Disk)
    (wal : Wal)
    (record : Record) : Except IoError Loc × Disk × Wal :=
  let bytes := record.encode
  match fault with
  | some (.write written) =>
      (.error ioFailure,
        (disk.append wal.activeFile
          (bytes.take written)).truncate
            wal.activeFile wal.currentSize,
        wal)
  | _ =>
      (.ok (toLex (wal.activeSegmentId, wal.currentSize)),
        disk.append wal.activeFile bytes,
        { wal with
          currentSize := wal.currentSize + bytes.length })

def append
    (fault : Option AppendFault)
    (disk : Disk)
    (wal : Wal)
    (record : Record) : Except IoError Loc × Disk × Wal :=
  match rotateIfFull fault disk wal with
  | (.error error, rest) => (.error error, rest)
  | (.ok (), rotated, next) =>
      writeFrame fault rotated next record

end Wal

end Nesso

------------------------------------------------------------
-- Compaction
------------------------------------------------------------

namespace Nesso

/- The two maps that phase 1 fills from the closed segments. -/
structure CompactionMaps where
  createdPayloads : Std.ExtTreeMap UInt64 Bytes
  latestRecords : Std.ExtTreeMap UInt64 Record

namespace CompactionMaps

def empty : CompactionMaps where
  createdPayloads := ∅
  latestRecords := ∅

/- Account for one record of a closed segment. -/
def absorb
    (maps : CompactionMaps)
    (record : Record) : CompactionMaps :=
  match record.opType with
  | .acked | .deadLettered =>
      { createdPayloads :=
          maps.createdPayloads.erase record.id
        latestRecords := maps.latestRecords.erase record.id }
  | .created =>
      { createdPayloads :=
          maps.createdPayloads.insert record.id
            record.payload
        latestRecords :=
          maps.latestRecords.insert record.id record }
  | .leased =>
      { createdPayloads :=
          if 13 ≤ record.payload.length then
            maps.createdPayloads.insertIfNew record.id
              (record.payload.drop 13)
          else
            maps.createdPayloads
        latestRecords :=
          maps.latestRecords.insert record.id record }
  | .nacked | .expired =>
      { createdPayloads :=
          if 1 ≤ record.payload.length then
            maps.createdPayloads.insertIfNew record.id
              (record.payload.drop 1)
          else
            maps.createdPayloads
        latestRecords :=
          maps.latestRecords.insert record.id record }

/-
  The record written for a surviving task: its latest state
  with the user payload behind the state's metadata.
-/
def recordToWrite
    (maps : CompactionMaps)
    (id : UInt64)
    (record : Record) : Record :=
  if record.opType = .created then
    record
  else
    match maps.createdPayloads[id]? with
    | none => record
    | some origPayload =>
        match record.opType with
        | .leased =>
            { record with
              id := id
              payload :=
                record.payload.take 13 ++ origPayload }
        | .nacked | .expired =>
            { record with
              id := id
              payload :=
                record.payload.headD 0 :: origPayload }
        | _ => record

/- The compacted segment, in increasing id order. -/
def survivors (maps : CompactionMaps) : List Record :=
  maps.latestRecords.toList.map
    (fun entry => maps.recordToWrite entry.1 entry.2)

end CompactionMaps

structure CompactionStats where
  closedSegmentsCompacted : Nat
  survivingRecords : Nat
  newSegmentId : Nat
deriving DecidableEq, Repr

namespace Wal

variable [Hasher]

/- The segments below the active one, if there are any. -/
def planCompaction
    (disk : Disk)
    (activeSegmentId : Nat) : Option (List Nat) :=
  let closedSegments :=
    disk.segmentIds.filter (· < activeSegmentId)
  if closedSegments = [] then none
  else some closedSegments

/- Read the closed segments in order. -/
def collectClosed
    (disk : Disk) :
    CompactionMaps → List Nat →
      Except IoError CompactionMaps
| maps, [] => .ok maps
| maps, segmentId :: closedSegments =>
    match disk.read (.wal segmentId) with
    | none => .error IoError.fileNotFound
    | some content =>
        collectClosed disk
          ((segmentRecords content).foldl
            (fun maps entry => maps.absorb entry.2) maps)
          closedSegments

/- Where each survivor starts in the compacted segment. -/
def newOffsets
    (survivors : List Record) :
    Std.ExtTreeMap UInt64 Nat :=
  (Framing.located Record.encode 0 survivors).foldl
    (fun offsets entry =>
      offsets.insert entry.2.id entry.1)
    ∅

def planSteps (closedSegments : List Nat) : List DiskStep :=
  [.createTruncate .compactionPlan,
    .write .compactionPlan
      (CompactionPlan.content closedSegments),
    .sync .compactionPlan]

/- Write the compacted segment, then the plan. -/
def phase1Steps
    (closedSegments : List Nat)
    (survivors : List Record) : List DiskStep :=
  .createTruncate .compacting ::
    (survivors.map
        (fun record =>
          .write .compacting record.encode) ++
      .sync .compacting :: planSteps closedSegments)

def executeCompactionPhase1
    (disk : Disk)
    (closedSegments : List Nat) :
    Except IoError
        (CompactionStats × Std.ExtTreeMap UInt64 Nat) ×
      Disk :=
  match collectClosed disk .empty closedSegments with
  | .error error => (.error error, disk)
  | .ok maps =>
      (.ok
        ({ closedSegmentsCompacted := closedSegments.length
           survivingRecords := maps.survivors.length
           newSegmentId := 1 },
          newOffsets maps.survivors),
        disk.execAll
          (phase1Steps closedSegments maps.survivors))

/- Swap the compacted segment in and unlink the old ones. -/
def phase2Steps
    (disk : Disk)
    (closedSegments : List Nat) : List DiskStep :=
  (if disk.contains .compactionPlan then []
    else planSteps closedSegments) ++
    (.rename .compacting (.wal 1) ::
      ((closedSegments.filter (1 < ·)).map
          (fun segmentId => .remove (.wal segmentId)) ++
        [.remove .compactionPlan,
          .remove .compactionSwap]))

def executeCompactionPhase2
    (disk : Disk)
    (closedSegments : List Nat) :
    Except IoError Unit × Disk :=
  if disk.contains .compacting then
    (.ok (),
      disk.execAll (phase2Steps disk closedSegments))
  else
    -- The rename fails after the plan was written.
    (.error IoError.fileNotFound,
      if disk.contains .compactionPlan then disk
      else disk.execAll (planSteps closedSegments))

/-
  The same steps when the unlinking of some obsolete segments
  fails, which the source ignores.
-/
def phase2StepsFailing
    (fails : Nat → Bool)
    (disk : Disk)
    (closedSegments : List Nat) : List DiskStep :=
  (if disk.contains .compactionPlan then []
    else planSteps closedSegments) ++
    (.rename .compacting (.wal 1) ::
      ((closedSegments.filter (fun segmentId =>
          1 < segmentId ∧ ¬ fails segmentId)).map
            (fun segmentId => .remove (.wal segmentId)) ++
        [.remove .compactionPlan,
          .remove .compactionSwap]))

def executeCompactionPhase2Failing
    (fails : Nat → Bool)
    (disk : Disk)
    (closedSegments : List Nat) :
    Except IoError Unit × Disk :=
  if disk.contains .compacting then
    (.ok (),
      disk.execAll
        (phase2StepsFailing fails disk closedSegments))
  else
    (.error IoError.fileNotFound,
      if disk.contains .compactionPlan then disk
      else disk.execAll (planSteps closedSegments))

end Wal

end Nesso

------------------------------------------------------------
-- Iterating Over All Segments
------------------------------------------------------------

namespace Nesso

namespace Wal

variable [Hasher]

/- Tag the records of one segment with its number. -/
def segmentEntries
    (segmentId : Nat)
    (content : Bytes) : List (Loc × Record) :=
  (segmentRecords content).map
    (fun entry => (toLex (segmentId, entry.1), entry.2))

/- Every record the iterator yields, in log order. -/
def entries (disk : Disk) : List (Loc × Record) :=
  disk.segmentIds.flatMap (fun segmentId =>
    segmentEntries segmentId
      ((disk.read (.wal segmentId)).getD []))

/-
  `iter_all` also removes a leftover temporary segment while
  it lists the directory.
-/
def iterAll (disk : Disk) : Disk × List (Loc × Record) :=
  (disk.execAll (sweepSteps disk), entries disk)

end Wal

end Nesso
