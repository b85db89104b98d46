import Nesso.Log.Frames

/-
  The frame scanners of the log, as loops over a file with a
  cursor (`storage/wal.rs`).

  The three loops read a frame in the same way and differ in
  what they do with it.  The other modules describe them by
  `segmentRecords` and `Framing.validLength`, which work on
  the bytes of a file.

  Key definitions include:
    * `FileCursor.readFrame`
    * `Wal.scanActive`
    * `Wal.foldSegments`
    * `WalIteratorAll.turn`
    * `WalIteratorAll.drain`

  The main theorems are:
    * `Wal.scanActive_open`
    * `Wal.foldSegments_eq`
    * `WalIteratorAll.drain_new`
-/

------------------------------------------------------------
-- Files with a Cursor
------------------------------------------------------------

namespace Nesso

/- An open file and its position. -/
structure FileCursor where
  content : Bytes
  position : Nat

namespace FileCursor

def «open» (content : Bytes) : FileCursor where
  content := content
  position := 0

/- `read_exact`; `none` is the end of the file. -/
def readExact
    (file : FileCursor)
    (size : Nat) : Option (Bytes × FileCursor) :=
  if file.position + size ≤ file.content.length then
    some
      (slice file.content file.position
          (file.position + size),
        { file with position := file.position + size })
  else
    none

/-
  Read the header and the payload of one frame, where the
  caller has tracked the offset and knows the file's length.
-/
def readFrame
    (file : FileCursor)
    (offset fileLen : Nat) : FrameRead × FileCursor :=
  if fileLen < offset + headerSize then
    (.shortHeader, file)
  else
    match file.readExact headerSize with
    | none => (.shortHeader, file)
    | some (header, file) =>
        if header.getD 0 0 ≠ magicByte then
          (.badMagic, file)
        else
          let payloadLen := extractPayloadLen header
          if maxPayloadSize < payloadLen then
            (.tooLong, file)
          else
            let frameLen := headerSize + payloadLen
            if fileLen < offset + frameLen then
              (.shortPayload, file)
            else
              match file.readExact payloadLen with
              | none => (.shortPayload, file)
              | some (payload, file) =>
                  (.frame (header ++ payload), file)

/- A frame that was read is not empty. -/
theorem lt_of_readFrame
    {file next : FileCursor}
    {offset fileLen : Nat}
    {fullRecord : Bytes}
    (hRead :
      file.readFrame offset fileLen =
        (.frame fullRecord, next)) :
    offset < fileLen ∧ 0 < fullRecord.length := by
  unfold readFrame at hRead
  split at hRead
  · simp at hRead
  · next hLength =>
      simp only [headerSize] at hLength
      refine ⟨by omega, ?_⟩
      split at hRead
      · simp at hRead
      · next header opened hHeader =>
          have hSize : header.length = headerSize := by
            unfold readExact at hHeader
            split at hHeader
            · next hLe =>
                simp only [Option.some.injEq,
                  Prod.mk.injEq] at hHeader
                rw [← hHeader.1, length_slice hLe]
                omega
            · simp at hHeader
          dsimp only at hRead
          split at hRead
          · simp at hRead
          · split at hRead
            · simp at hRead
            · split at hRead
              · simp at hRead
              · split at hRead
                · simp at hRead
                · simp only [Prod.mk.injEq,
                    FrameRead.frame.injEq] at hRead
                  rw [← hRead.1, List.length_append, hSize,
                    headerSize]
                  omega

/- Reading moves the cursor only. -/
theorem content_of_readExact
    {file next : FileCursor}
    {size : Nat}
    {bytes : Bytes}
    (hRead : file.readExact size = some (bytes, next)) :
    next.content = file.content := by
  unfold readExact at hRead
  split at hRead
  · simp only [Option.some.injEq, Prod.mk.injEq] at hRead
    rw [← hRead.2]
  · simp at hRead

theorem content_of_readFrame
    {file next : FileCursor}
    {offset fileLen : Nat}
    {result : FrameRead}
    (hRead :
      file.readFrame offset fileLen = (result, next)) :
    next.content = file.content := by
  have hNext :
      next = (file.readFrame offset fileLen).2 := by
    rw [hRead]
  rw [hNext]
  unfold readFrame
  split
  · rfl
  · split
    · rfl
    · next header opened hHeader =>
        have hOpened := content_of_readExact hHeader
        dsimp only
        split
        · exact hOpened
        · split
          · exact hOpened
          · split
            · exact hOpened
            · split
              · exact hOpened
              · next payload after hPayload =>
                  exact (content_of_readExact
                    hPayload).trans hOpened

/- A slice is the front of what follows its start. -/
theorem slice_eq_take_drop
    (data : Bytes)
    (first size : Nat) :
    slice data first (first + size) =
      (data.drop first).take size := by
  rw [slice, List.drop_take, Nat.add_sub_cancel_left]

/-
  A cursor at the tracked offset finds what the bytes from
  there on hold, and moves behind a whole frame.
-/
theorem readFrame_eq
    {file : FileCursor}
    {offset : Nat}
    (hPosition : file.position = offset) :
    (file.readFrame offset file.content.length).1 =
        Nesso.readFrame (file.content.drop offset) ∧
      ∀ fullRecord next,
        file.readFrame offset file.content.length =
            (.frame fullRecord, next) →
          next.content = file.content ∧
            next.position = offset + fullRecord.length := by
  subst hPosition
  have hSize : headerSize = 19 := rfl
  have hDrop :
      (file.content.drop file.position).length =
        file.content.length - file.position :=
    List.length_drop
  unfold FileCursor.readFrame Nesso.readFrame
  rw [hDrop]
  by_cases hShort :
      file.content.length < file.position + headerSize
  · have hLt :
        file.content.length - file.position < headerSize := by
      omega
    simp [hShort, hLt]
  · have hNotLt :
        ¬ file.content.length - file.position <
          headerSize := by
      omega
    have hLe :
        file.position + headerSize ≤
          file.content.length := by
      omega
    have hMagic :
        ((file.content.drop file.position).take
            headerSize).getD 0 0 =
          (file.content.drop file.position).getD 0 0 := by
      simp [List.getD_eq_getElem?_getD, headerSize]
    have hPayloadLen :
        extractPayloadLen
            ((file.content.drop file.position).take
              headerSize) =
          extractPayloadLen
            (file.content.drop file.position) :=
      extractPayloadLen_take (le_refl headerSize)
    simp only [if_neg hShort, if_neg hNotLt, readExact,
      if_pos hLe, slice_eq_take_drop, hMagic, hPayloadLen]
    by_cases hBad :
        (file.content.drop file.position).getD 0 0 ≠
          magicByte
    · simp only [if_pos hBad]
      exact ⟨trivial, by simp⟩
    · by_cases hLong :
          maxPayloadSize <
            extractPayloadLen
              (file.content.drop file.position)
      · simp only [if_neg hBad, if_pos hLong]
        exact ⟨trivial, by simp⟩
      · by_cases hTorn :
            file.content.length <
              file.position + (headerSize +
                extractPayloadLen
                  (file.content.drop file.position))
        · have hTornDrop :
              file.content.length - file.position <
                headerSize +
                  extractPayloadLen
                    (file.content.drop file.position) := by
            omega
          simp only [if_neg hBad, if_neg hLong,
            if_pos hTorn, if_pos hTornDrop]
          exact ⟨trivial, by simp⟩
        · have hWholeDrop :
              ¬ file.content.length - file.position <
                headerSize +
                  extractPayloadLen
                    (file.content.drop file.position) := by
            omega
          have hWhole :
              file.position + headerSize +
                  extractPayloadLen
                    (file.content.drop file.position) ≤
                file.content.length := by
            omega
          have hJoin :
              (file.content.drop file.position).take
                    headerSize ++
                  (file.content.drop
                    (file.position + headerSize)).take
                      (extractPayloadLen
                        (file.content.drop
                          file.position)) =
                (file.content.drop file.position).take
                  (headerSize +
                    extractPayloadLen
                      (file.content.drop
                        file.position)) := by
            rw [List.take_add, List.drop_drop]
          simp only [if_neg hBad, if_neg hLong,
            if_neg hTorn, if_neg hWholeDrop,
            if_pos hWhole, hJoin, Prod.mk.injEq,
            FrameRead.frame.injEq, true_and]
          intro fullRecord next hFrame
          rw [← hFrame.2, ← hFrame.1, List.length_take,
            hDrop]
          refine ⟨rfl, ?_⟩
          simp only
          omega

end FileCursor

end Nesso

------------------------------------------------------------
-- The Scan of the Active Segment
------------------------------------------------------------

namespace Nesso

variable [Hasher]

/- A whole frame, in terms of the bytes that are left. -/
theorem parseFrame_of_frame
    {file next : FileCursor}
    {offset : Nat}
    (hPosition : file.position = offset)
    {fullRecord : Bytes}
    (hRead :
      file.readFrame offset file.content.length =
        (.frame fullRecord, next)) :
    parseFrame (file.content.drop offset) =
      some (fullRecord.length,
        Record.decode fullRecord) := by
  have hEq := (FileCursor.readFrame_eq hPosition).1
  simp only [hRead] at hEq
  rw [parseFrame, ← hEq]

/- Anything else ends the scan of the file. -/
theorem parseFrame_of_not_frame
    {file : FileCursor}
    {offset : Nat}
    (hPosition : file.position = offset)
    (hRead :
      ∀ fullRecord next,
        file.readFrame offset file.content.length =
          (.frame fullRecord, next) → False) :
    parseFrame (file.content.drop offset) = none := by
  have hEq := (FileCursor.readFrame_eq hPosition).1
  rw [parseFrame, ← hEq]
  split
  · next fullRecord hFrame =>
      exact (hRead fullRecord _
        (Prod.ext hFrame rfl)).elim
  · rfl

namespace Wal

/- The loop of `open`: where the last valid record ends. -/
def scanActive
    (file : FileCursor)
    (validOffset rawSize : Nat) : Nat :=
  if validOffset = rawSize then
    validOffset
  else
    match hRead : file.readFrame validOffset rawSize with
    | (.frame fullRecord, next) =>
        if (Record.decode fullRecord).isNone then
          validOffset
        else
          scanActive next
            (validOffset + fullRecord.length) rawSize
    | _ => validOffset
termination_by rawSize - validOffset
decreasing_by
  have hLt := FileCursor.lt_of_readFrame hRead
  omega

theorem scanActive_eq
    {file : FileCursor}
    {validOffset : Nat}
    (hPosition : file.position = validOffset)
    (hLe : validOffset ≤ file.content.length) :
    scanActive file validOffset file.content.length =
      validOffset +
        Framing.validLength frameParser
          (file.content.drop validOffset) := by
  induction hRest : file.content.length - validOffset
    using Nat.strong_induction_on
    generalizing file validOffset with
  | h rest ih =>
      rw [scanActive]
      split
      · next hEnd =>
          have hNil :
              file.content.drop validOffset = [] := by
            simp [hEnd]
          have hParse :
              frameParser.parse
                (file.content.drop validOffset) = none := by
            rw [hNil]
            exact Framing.Parser.parse_nil frameParser
          rw [Framing.validLength_eq_zero hParse,
            Nat.add_zero]
      · split
        · next fullRecord next hRead =>
            have hParse :
                parseFrame (file.content.drop validOffset) =
                  some (fullRecord.length,
                    Record.decode fullRecord) :=
              parseFrame_of_frame hPosition hRead
            rcases (FileCursor.readFrame_eq hPosition).2
              fullRecord next hRead with ⟨hContent, hNext⟩
            have hLt := FileCursor.lt_of_readFrame hRead
            have hSize :=
              frameParser.parse_le hParse
            rw [List.length_drop] at hSize
            cases hDecode : Record.decode fullRecord with
            | none =>
                rw [hDecode] at hParse
                have hZero :
                    Framing.validLength frameParser
                        (file.content.drop validOffset) =
                      0 := by
                  apply Framing.validLength_eq_zero_of_stop
                  intro size record hSome
                  change parseFrame _ = _ at hSome
                  rw [hParse] at hSome
                  simp at hSome
                simp [hZero]
            | some record =>
                rw [hDecode] at hParse
                have hAdd :=
                  Framing.validLength_eq_add
                    (P := frameParser) hParse
                have hRec :=
                  ih (file.content.length -
                      (validOffset + fullRecord.length))
                    (by omega) hNext
                    (by rw [hContent]; omega)
                    (by rw [hContent])
                rw [hContent] at hRec
                simp only [Option.isNone_some,
                  Bool.false_eq_true, if_false]
                rw [hRec, hAdd, List.drop_drop]
                omega
        · next hRead =>
            have hNone :
                frameParser.parse
                  (file.content.drop validOffset) =
                    none :=
              parseFrame_of_not_frame hPosition hRead
            rw [Framing.validLength_eq_zero hNone,
              Nat.add_zero]

/- From the start, the scan finds all valid frames. -/
theorem scanActive_open
    (content : Bytes) :
    scanActive (.open content) 0 content.length =
      Framing.validLength frameParser content := by
  have hPosition :
      (FileCursor.open content).position = 0 := rfl
  have hScan := scanActive_eq hPosition (Nat.zero_le _)
  simpa [FileCursor.open] using hScan

end Wal

end Nesso

------------------------------------------------------------
-- The Scan of Compaction
------------------------------------------------------------

namespace Nesso

namespace Wal

variable [Hasher] {α : Type}

/-
  The loop of phase 1 over one closed segment.  `absorb` is
  what it does with each record.
-/
def foldSegment
    (absorb : α → Record → α)
    (file : FileCursor)
    (currentOffset fileLen : Nat)
    (acc : α) : α :=
  match hRead : file.readFrame currentOffset fileLen with
  | (.frame fullRecord, next) =>
      foldSegment absorb next
        (currentOffset + fullRecord.length) fileLen
        (match Record.decode fullRecord with
        | some record => absorb acc record
        | none => acc)
  | _ => acc
termination_by fileLen - currentOffset
decreasing_by
  have hLt := FileCursor.lt_of_readFrame hRead
  omega

def foldSegments
    (absorb : α → Record → α)
    (disk : Disk) :
    α → List Nat → Except IoError α
| acc, [] => .ok acc
| acc, segmentId :: closedSegments =>
    match disk.read (.wal segmentId) with
    | none => .error IoError.fileNotFound
    | some content =>
        foldSegments absorb disk
          (foldSegment absorb (.open content) 0
            content.length acc)
          closedSegments

theorem foldSegment_eq
    (absorb : α → Record → α)
    {file : FileCursor}
    {currentOffset : Nat}
    (hPosition : file.position = currentOffset)
    (acc : α) :
    foldSegment absorb file currentOffset
        file.content.length acc =
      ((Framing.scan frameParser currentOffset
          (file.content.drop currentOffset)).map
            Prod.snd).foldl absorb acc := by
  induction hRest : file.content.length - currentOffset
    using Nat.strong_induction_on
    generalizing file currentOffset acc with
  | h rest ih =>
      rw [foldSegment]
      split
      · next fullRecord next hRead =>
          have hParse :=
            parseFrame_of_frame hPosition hRead
          rcases (FileCursor.readFrame_eq hPosition).2
            fullRecord next hRead with ⟨hContent, hNext⟩
          have hLt := FileCursor.lt_of_readFrame hRead
          have hRec :=
            fun acc =>
              ih (file.content.length -
                  (currentOffset + fullRecord.length))
                (by omega) hNext acc (by rw [hContent])
          simp only [hContent] at hRec
          rw [hRec, ← List.drop_drop]
          cases hDecode : Record.decode fullRecord with
          | none =>
              rw [hDecode] at hParse
              rw [Framing.scan_eq_skip
                (P := frameParser) hParse]
          | some record =>
              rw [hDecode] at hParse
              rw [Framing.scan_eq_cons
                (P := frameParser) hParse]
              rfl
      · next hRead =>
          rw [Framing.scan_eq_nil (P := frameParser)
            (parseFrame_of_not_frame hPosition hRead)]
          rfl

/- Phase 1 folds the records that its segments yield. -/
theorem foldSegments_eq
    (absorb : α → Record → α)
    {disk : Disk}
    {ids : List Nat}
    (hPresent :
      ∀ segmentId ∈ ids,
        ∃ content,
          disk.read (.wal segmentId) = some content)
    (acc : α) :
    foldSegments absorb disk acc ids =
      .ok ((ids.flatMap (fun segmentId =>
        (segmentRecords
          ((disk.read (.wal segmentId)).getD [])).map
            Prod.snd)).foldl absorb acc) := by
  induction ids generalizing acc with
  | nil => rfl
  | cons segmentId ids ih =>
      rcases hPresent segmentId (by simp) with
        ⟨content, hRead⟩
      have hPosition :
          (FileCursor.open content).position = 0 := rfl
      have hFirst := foldSegment_eq absorb hPosition acc
      have hScan :
          Framing.scan frameParser 0 (content.drop 0) =
            segmentRecords content := rfl
      simp only [FileCursor.open] at hFirst
      rw [foldSegments, hRead]
      simp only [FileCursor.open]
      rw [hFirst, hScan, ih (fun other hOther =>
        hPresent other (by simp [hOther]))]
      simp [hRead]

end Wal

end Nesso

------------------------------------------------------------
-- The Iterator over All Segments
------------------------------------------------------------

namespace Nesso

structure WalIteratorAll where
  segmentIds : List Nat
  currentSegmentIdx : Nat
  currentFile : Option FileCursor
  currentSegmentId : Nat
  currentOffset : Nat

/- How one turn of the loop in `next` ends. -/
inductive IteratorTurn where
| finished
| failed (error : IoError)
| continued (next : WalIteratorAll)
| yielded (loc : Loc) (record : Record)
    (next : WalIteratorAll)

namespace WalIteratorAll

variable [Hasher]

def new (segmentIds : List Nat) : WalIteratorAll where
  segmentIds := segmentIds
  currentSegmentIdx := 0
  currentFile := none
  currentSegmentId := 0
  currentOffset := 0

/- Close the file and go on with the next segment. -/
def nextSegment (iter : WalIteratorAll) : WalIteratorAll :=
  { iter with
    currentFile := none
    currentSegmentIdx := iter.currentSegmentIdx + 1 }

/- The part of a turn in which a file is open. -/
def advance
    (iter : WalIteratorAll)
    (file : FileCursor) : IteratorTurn :=
  match file.readFrame iter.currentOffset
      file.content.length with
  | (.frame fullRecord, file) =>
      let next :=
        { iter with
          currentFile := some file
          currentOffset :=
            iter.currentOffset + fullRecord.length }
      match Record.decode fullRecord with
      | some record =>
          .yielded
            (toLex (iter.currentSegmentId,
              iter.currentOffset))
            record next
      | none => .continued next
  | _ => .continued iter.nextSegment

def turn
    (disk : Disk)
    (iter : WalIteratorAll) : IteratorTurn :=
  match iter.currentFile with
  | some file => iter.advance file
  | none =>
      match iter.segmentIds[iter.currentSegmentIdx]? with
      | none => .finished
      | some segmentId =>
          match disk.read (.wal segmentId) with
          | none => .failed IoError.fileNotFound
          | some content =>
              advance
                { iter with
                  currentSegmentId := segmentId
                  currentOffset := 0 }
                (.open content)

/-
  What is left to read: segments, then bytes of the current
  one, with one more for the end of the file and for opening
  it.
-/
def remaining
    (disk : Disk)
    (iter : WalIteratorAll) : Nat ×ₗ Nat :=
  toLex
    (iter.segmentIds.length - iter.currentSegmentIdx,
      match iter.currentFile with
      | some file =>
          file.content.length - iter.currentOffset + 1
      | none =>
          match iter.segmentIds[iter.currentSegmentIdx]? with
          | none => 0
          | some segmentId =>
              ((disk.read (.wal segmentId)).getD
                []).length + 2)

/- A turn goes on with the given iterator. -/
def GoesOn
    (turn : IteratorTurn)
    (next : WalIteratorAll) : Prop :=
  turn = .continued next ∨
    ∃ loc record, turn = .yielded loc record next

/- Reading a frame keeps the content of the file. -/
theorem advance_cases
    {iter next : WalIteratorAll}
    {file : FileCursor}
    (hOn : GoesOn (iter.advance file) next) :
    next = iter.nextSegment ∨
      ∃ fullRecord after,
        file.readFrame iter.currentOffset
            file.content.length =
          (.frame fullRecord, after) ∧
        next =
          { iter with
            currentFile := some after
            currentOffset :=
              iter.currentOffset + fullRecord.length } := by
  unfold advance at hOn
  split at hOn
  · next fullRecord after hRead =>
      right
      refine ⟨fullRecord, after, hRead, ?_⟩
      dsimp only at hOn
      split at hOn
      · rcases hOn with hOn | ⟨loc, record, hOn⟩
        · simp at hOn
        · simp only [IteratorTurn.yielded.injEq] at hOn
          exact hOn.2.2.symm
      · rcases hOn with hOn | ⟨loc, record, hOn⟩
        · simp only [IteratorTurn.continued.injEq] at hOn
          exact hOn.symm
        · simp at hOn
  · left
    rcases hOn with hOn | ⟨loc, record, hOn⟩
    · simp only [IteratorTurn.continued.injEq] at hOn
      exact hOn.symm
    · simp at hOn

/- Every turn leaves less to read. -/
theorem remaining_lt_of_goesOn
    {disk : Disk}
    {iter next : WalIteratorAll}
    (hOn : GoesOn (iter.turn disk) next) :
    next.remaining disk < iter.remaining disk := by
  unfold turn at hOn
  split at hOn
  · next file hFile =>
      rcases advance_cases hOn with
        hNext | ⟨fullRecord, after, hRead, hNext⟩
      · rw [hNext, remaining, remaining,
          Prod.Lex.toLex_lt_toLex]
        by_cases hLt :
            iter.currentSegmentIdx < iter.segmentIds.length
        · left
          simp only [nextSegment]
          omega
        · right
          have hNone :
              iter.segmentIds[
                iter.currentSegmentIdx + 1]? = none :=
            List.getElem?_eq_none (by omega)
          simp only [nextSegment, hFile, hNone]
          omega
      · have hFrame := FileCursor.lt_of_readFrame hRead
        have hContent :=
          FileCursor.content_of_readFrame hRead
        rw [hNext, remaining, remaining,
          Prod.Lex.toLex_lt_toLex]
        right
        simp only [hFile, hContent, true_and]
        omega
  · next hFile =>
      split at hOn
      · rcases hOn with hOn | ⟨loc, record, hOn⟩ <;>
          simp at hOn
      · next segmentId hSegment =>
          have hLt :=
            (List.getElem?_eq_some_iff.mp hSegment).1
          split at hOn
          · rcases hOn with hOn | ⟨loc, record, hOn⟩ <;>
              simp at hOn
          · next content hRead =>
              rcases advance_cases hOn with
                hNext | ⟨fullRecord, after, hFrame, hNext⟩
              · rw [hNext, remaining, remaining,
                  Prod.Lex.toLex_lt_toLex]
                left
                simp only [nextSegment]
                omega
              · have hContent :=
                  FileCursor.content_of_readFrame hFrame
                rw [hNext, remaining, remaining,
                  Prod.Lex.toLex_lt_toLex]
                right
                simp only [hFile, hSegment, hRead, hContent,
                  Option.getD_some, FileCursor.open,
                  true_and]
                omega

/-
  Everything `next` yields until it returns `None` or an
  error.
-/
def drain
    (disk : Disk)
    (iter : WalIteratorAll) :
    List (Loc × Record) × Option IoError :=
  match hTurn : iter.turn disk with
  | .finished => ([], none)
  | .failed error => ([], some error)
  | .continued next => drain disk next
  | .yielded loc record next =>
      let rest := drain disk next
      ((loc, record) :: rest.1, rest.2)
termination_by iter.remaining disk
decreasing_by
  · exact remaining_lt_of_goesOn (.inl hTurn)
  · exact remaining_lt_of_goesOn (.inr ⟨_, _, hTurn⟩)

theorem drain_of_continued
    {disk : Disk}
    {iter next : WalIteratorAll}
    (hTurn : iter.turn disk = .continued next) :
    iter.drain disk = next.drain disk := by
  rw [drain]
  split <;> simp_all

theorem drain_of_yielded
    {disk : Disk}
    {iter next : WalIteratorAll}
    {loc : Loc}
    {record : Record}
    (hTurn : iter.turn disk = .yielded loc record next) :
    iter.drain disk =
      ((loc, record) :: (next.drain disk).1,
        (next.drain disk).2) := by
  rw [drain]
  split <;> simp_all

theorem drain_of_finished
    {disk : Disk}
    {iter : WalIteratorAll}
    (hTurn : iter.turn disk = .finished) :
    iter.drain disk = ([], none) := by
  rw [drain]
  split <;> simp_all

/-
  From an open file on, the iterator yields the records that
  are left of it and goes on with the next segment.
-/
theorem drain_of_advance
    {disk : Disk}
    {iter base : WalIteratorAll}
    {file : FileCursor}
    (hTurn : iter.turn disk = base.advance file)
    (hPosition : file.position = base.currentOffset) :
    ∃ last : WalIteratorAll,
      last.segmentIds = base.segmentIds ∧
        last.currentSegmentIdx =
          base.currentSegmentIdx + 1 ∧
        last.currentFile = none ∧
        iter.drain disk =
          ((Framing.scan frameParser base.currentOffset
              (file.content.drop base.currentOffset)).map
                (fun entry =>
                  (toLex (base.currentSegmentId, entry.1),
                    entry.2)) ++
              (last.drain disk).1,
            (last.drain disk).2) := by
  induction hRest :
      file.content.length - base.currentOffset
    using Nat.strong_induction_on
    generalizing iter base file with
  | h rest ih =>
      unfold advance at hTurn
      split at hTurn
      · next fullRecord after hRead =>
          have hParse :=
            parseFrame_of_frame hPosition hRead
          rcases (FileCursor.readFrame_eq hPosition).2
            fullRecord after hRead with ⟨hContent, hAfter⟩
          have hLt := FileCursor.lt_of_readFrame hRead
          dsimp only at hTurn
          have hNextTurn :
              ({ base with
                currentFile := some after
                currentOffset :=
                  base.currentOffset +
                    fullRecord.length } :
                WalIteratorAll).turn disk =
              advance
                { base with
                  currentFile := some after
                  currentOffset :=
                    base.currentOffset + fullRecord.length }
                after := rfl
          rcases ih
            (file.content.length -
              (base.currentOffset + fullRecord.length))
            (by omega) hNextTurn hAfter
            (by rw [hContent]) with
            ⟨last, hIds, hIdx, hFile, hDrain⟩
          rw [hContent, ← List.drop_drop] at hDrain
          refine ⟨last, hIds, hIdx, hFile, ?_⟩
          cases hDecode : Record.decode fullRecord with
          | none =>
              rw [hDecode] at hParse hTurn
              rw [drain_of_continued hTurn, hDrain,
                Framing.scan_eq_skip
                  (P := frameParser) hParse]
          | some record =>
              rw [hDecode] at hParse hTurn
              rw [drain_of_yielded hTurn, hDrain,
                Framing.scan_eq_cons
                  (P := frameParser) hParse]
              rfl
      · next hRead =>
          refine ⟨base.nextSegment, rfl, rfl, rfl, ?_⟩
          rw [drain_of_continued hTurn,
            Framing.scan_eq_nil (P := frameParser)
              (parseFrame_of_not_frame hPosition hRead)]
          rfl

/- Between two files, all later segments are still to come. -/
theorem drain_of_closed
    {disk : Disk}
    {iter : WalIteratorAll}
    {ids : List Nat}
    (hFile : iter.currentFile = none)
    (hIds :
      iter.segmentIds.drop iter.currentSegmentIdx = ids)
    (hPresent :
      ∀ segmentId ∈ ids,
        ∃ content,
          disk.read (.wal segmentId) = some content) :
    iter.drain disk =
      (ids.flatMap (fun segmentId =>
        Wal.segmentEntries segmentId
          ((disk.read (.wal segmentId)).getD [])),
        none) := by
  induction ids generalizing iter with
  | nil =>
      have hNone :
          iter.segmentIds[iter.currentSegmentIdx]? =
            none := by
        apply List.getElem?_eq_none
        exact List.drop_eq_nil_iff.mp hIds
      apply drain_of_finished
      simp [turn, hFile, hNone]
  | cons segmentId ids ih =>
      rcases hPresent segmentId (by simp) with
        ⟨content, hRead⟩
      have hSome :
          iter.segmentIds[iter.currentSegmentIdx]? =
            some segmentId := by
        rw [← List.head?_drop, hIds]
        rfl
      have hTurn :
          iter.turn disk =
            advance
              { iter with
                currentSegmentId := segmentId
                currentOffset := 0 }
              (.open content) := by
        simp only [turn, hFile, hSome, hRead]
      rcases drain_of_advance hTurn rfl with
        ⟨last, hLastIds, hLastIdx, hLastFile, hDrain⟩
      have hRest :
          last.segmentIds.drop last.currentSegmentIdx =
            ids := by
        have hTail := congrArg List.tail hIds
        rw [List.tail_drop] at hTail
        rw [hLastIds, hLastIdx]
        exact hTail
      rw [hDrain, ih hLastFile hRest (fun other hOther =>
        hPresent other (by simp [hOther]))]
      simp [Wal.segmentEntries, segmentRecords, hRead,
        FileCursor.open]

/- The iterator yields the records of all its segments. -/
theorem drain_new
    {disk : Disk}
    {ids : List Nat}
    (hPresent :
      ∀ segmentId ∈ ids,
        ∃ content,
          disk.read (.wal segmentId) = some content) :
    (new ids).drain disk =
      (ids.flatMap (fun segmentId =>
        Wal.segmentEntries segmentId
          ((disk.read (.wal segmentId)).getD [])),
        none) :=
  drain_of_closed rfl rfl hPresent

end WalIteratorAll

end Nesso
