import Nesso.Log.TornTails
import Nesso.Recovery.Recover

/-
  The four frame scanners read the same history from any
  files, however corrupted.

  Key definitions include:
    * `Wal.IterationAgrees`
    * `Wal.ActiveAgrees`
    * `Engine.SecondPassReads`

  The main theorem is:
    * `Wal.scanners_agree`
-/

------------------------------------------------------------
-- What Agreement Means
------------------------------------------------------------

namespace Nesso

variable [Hasher]

/-
  The iterator, the fold of compaction and reading by location
  find the same records in the given segments.
-/
def Wal.IterationAgrees
    (disk : Disk)
    (ids : List Nat) : Prop :=
  ∃ entries,
    (WalIteratorAll.new ids).drain disk = (entries, none) ∧
      (∀ (α : Type) (absorb : α → Record → α) (acc : α),
        Wal.foldSegments absorb disk acc ids =
          .ok ((entries.map Prod.snd).foldl absorb acc)) ∧
      Wal.collectClosed disk .empty ids =
        .ok ((entries.map Prod.snd).foldl
          CompactionMaps.absorb .empty) ∧
      ∀ entry ∈ entries, ∀ reader : WalReader,
        reader.Coherent disk →
          (reader.readAt disk
              (ofLex entry.1).1 (ofLex entry.1).2).1 =
            .ok (some entry.2)

/-
  Opening keeps what the iterator yields of the active segment
  before the first frame that does not decode.
-/
def Wal.ActiveAgrees
    (disk : Disk)
    (maxSegmentSize : Option Nat) : Prop :=
  ∀ content,
    (Wal.sweep disk).read
        (.wal (Wal.lastSegmentId (Wal.sweep disk))) =
      some content →
    ∃ entries,
      (WalIteratorAll.new
          [Wal.lastSegmentId (Wal.sweep disk)]).drain
            (Wal.sweep disk) = (entries, none) ∧
        (WalIteratorAll.new
            [Wal.lastSegmentId (Wal.sweep disk)]).drain
              (Wal.open disk maxSegmentSize).1 =
          (entries.filter (fun entry =>
            (ofLex entry.1).2 <
              Wal.scanActive (.open content) 0
                content.length),
            none) ∧
        WholeFrames
          (content.take
            (Wal.scanActive (.open content) 0
              content.length)) ∧
        Record.decode
            (content.drop
              (Wal.scanActive (.open content) 0
                content.length)) =
          none

/- Every location that the first pass indexed can be read. -/
def Engine.SecondPassReads
    (disk : Disk)
    (inner : EngineState) : Prop :=
  ∀ id loc,
    ((Wal.iterAll disk).2.foldl EngineState.indexRecord
        inner).index[id]? = some loc →
      ∃ record,
        record.id = id ∧
          ∀ reader : WalReader, reader.Coherent disk →
            (reader.readAt disk
                (ofLex loc).1 (ofLex loc).2).1 =
              .ok (some record)

end Nesso

------------------------------------------------------------
-- Agreement
------------------------------------------------------------

namespace Nesso

variable [Hasher]

theorem Wal.iterationAgrees
    {disk : Disk}
    {ids : List Nat}
    (hPresent :
      ∀ segmentId ∈ ids,
        ∃ content,
          disk.read (.wal segmentId) = some content) :
    Wal.IterationAgrees disk ids := by
  have hRecords :
      (entriesIn disk ids).map Prod.snd =
        recordsIn disk ids :=
    map_snd_entriesIn disk ids
  refine ⟨entriesIn disk ids,
    WalIteratorAll.drain_new hPresent, ?_, ?_, ?_⟩
  · intro α absorb acc
    rw [foldSegments_eq absorb hPresent acc, hRecords]
    rfl
  · rw [collectClosed_of_present hPresent, hRecords]
  · intro entry hEntry reader hCoherent
    rcases List.mem_flatMap.mp hEntry with
      ⟨segmentId, hSegment, hIn⟩
    rcases hPresent segmentId hSegment with
      ⟨content, hRead⟩
    rcases List.mem_map.mp hIn with ⟨found, hFound, hEq⟩
    rw [hRead, Option.getD_some] at hFound
    rw [← hEq]
    exact hCoherent.readAt_of_mem_scan hRead hFound

/- A stop of the valid frames splits the scanned records. -/
theorem segmentRecords_take_validLength
    (content : Bytes) :
    segmentRecords
        (content.take
          (Framing.validLength frameParser content)) =
      (segmentRecords content).filter (fun entry =>
        entry.1 <
          Framing.validLength frameParser content) := by
  rcases take_validLength_spec content with
    ⟨records, rest, hRecords, hContent, hTake, hLength, _⟩
  have hAll :=
    frameCodec.scan_encodeAll_append hRecords 0 rest
  have hSplit :
      segmentRecords content =
        Framing.located Record.encode 0 records ++
          Framing.scan frameParser
            (encodeRecords records).length rest := by
    rw [Nat.zero_add] at hAll
    rw [hContent]
    exact hAll
  have hFront :
      (Framing.located Record.encode 0 records).filter
          (fun entry =>
            entry.1 <
              Framing.validLength frameParser content) =
        Framing.located Record.encode 0 records := by
    apply List.filter_eq_self.mpr
    intro entry hEntry
    have hLe :=
      Framing.add_length_le_of_mem_located hEntry
    have hPos := Record.encode_length_pos entry.2
    change _ ≤ 0 + (encodeRecords records).length at hLe
    rw [hLength] at hLe
    simp only [decide_eq_true_eq]
    omega
  have hBack :
      (Framing.scan frameParser
          (encodeRecords records).length rest).filter
          (fun entry =>
            entry.1 <
              Framing.validLength frameParser content) =
        [] := by
    apply List.filter_eq_nil_iff.mpr
    intro entry hEntry
    rcases Framing.parse_of_mem_scan hEntry with
      ⟨skipped, _, hOffset, _⟩
    simp only [decide_eq_true_eq]
    omega
  rw [hTake, segmentRecords_encodeRecords hRecords, hSplit,
    List.filter_append, hFront, hBack, List.append_nil]

theorem Wal.activeAgrees
    (disk : Disk)
    (maxSegmentSize : Option Nat) :
    Wal.ActiveAgrees disk maxSegmentSize := by
  intro content hRead
  have hActive : activeContent disk = content := by
    rw [activeContent, hRead, Option.getD_some]
  have hValid :
      validOffset (sweep disk) =
        Framing.validLength frameParser content := by
    change Framing.validLength frameParser
      (activeContent disk) = _
    rw [hActive]
  have hOpened :
      (Wal.open disk maxSegmentSize).1.read
          (.wal (lastSegmentId (sweep disk))) =
        some (content.take
          (Framing.validLength frameParser content)) := by
    rw [read_open_sweep, if_pos rfl, hActive, hValid]
  have hSweptPresent :
      ∀ segmentId ∈ [lastSegmentId (sweep disk)],
        ∃ content,
          (sweep disk).read (.wal segmentId) =
            some content := by
    simp [hRead]
  have hOpenPresent :
      ∀ segmentId ∈ [lastSegmentId (sweep disk)],
        ∃ content,
          (Wal.open disk maxSegmentSize).1.read
            (.wal segmentId) = some content := by
    simp [hOpened]
  have hSwept := WalIteratorAll.drain_new hSweptPresent
  have hKept := WalIteratorAll.drain_new hOpenPresent
  rcases take_validLength_spec content with
    ⟨records, rest, hRecords, hContent, hTake, hLength,
      hStop⟩
  refine ⟨_, hSwept, ?_, ?_, ?_⟩
  · rw [hKept]
    simp [hRead, hOpened, segmentEntries, scanActive_open,
      segmentRecords_take_validLength, List.filter_map,
      Function.comp_def]
    rfl
  · rw [scanActive_open, hTake]
    exact wholeFrames_iff.mpr ⟨records, hRecords, rfl⟩
  · rw [scanActive_open, ← hLength, hContent,
      List.drop_left]
    exact hStop

/- The first pass indexes locations of yielded records. -/
theorem Engine.secondPassReads
    (disk : Disk)
    (wal : Wal)
    (cacheCapacity : Nat) :
    Engine.SecondPassReads disk
      (.newWithCacheCapacity wal cacheCapacity) := by
  intro id loc hIndex
  rw [Wal.iterAll, EngineState.foldl_indexRecord] at hIndex
  change (KeyedLog.lastWriter entryId Prod.fst
    (Wal.entries disk))[id]? = some loc at hIndex
  rw [KeyedLog.getElem?_lastWriter,
    Option.map_eq_some_iff] at hIndex
  rcases hIndex with ⟨entry, hLatest, hLoc⟩
  rcases KeyedLog.latest_mem hLatest with ⟨hMem, hId⟩
  refine ⟨entry.2, hId, ?_⟩
  intro reader hCoherent
  rw [← hLoc]
  exact Wal.readAt_of_mem_entries hCoherent hMem

omit [Hasher] in
/- The sweep removes a leftover temporary segment. -/
theorem Wal.read_compacting_sweep
    (disk : Disk) :
    (sweep disk).read .compacting = none := by
  unfold sweep
  dsimp only
  generalize disk.execAll (cleanupSteps disk) = cleaned
  cases hTemp : Disk.contains cleaned .compacting with
  | true =>
      simp [sweepSteps, hTemp, FileSystem.Step.exec,
        FileSystem.read_remove]
  | false =>
      have hRead := hTemp
      rw [Disk.contains_eq] at hRead
      simpa [sweepSteps, hTemp] using hRead

/- Any directory is recovered from what its scan yields. -/
theorem Engine.reopen_any_spec
    (disk : Disk)
    (maxSegmentSize : Option Nat)
    (cacheCapacity : Nat)
    (now : UInt64) :
    ∃ next,
      Engine.reopen disk maxSegmentSize cacheCapacity now =
          (.ok (), next) ∧
        next.disk = (Wal.open disk maxSegmentSize).1 ∧
        next.reader.Coherent next.disk ∧
        next.inner.wal = (Wal.open disk maxSegmentSize).2 ∧
        next.inner.payloadCache = .new cacheCapacity ∧
        next.inner.Recovered now
          (Wal.entries (Wal.open disk maxSegmentSize).1) := by
  have hTemp :
      (Wal.open disk maxSegmentSize).1.read .compacting =
        none := by
    rw [Wal.read_open_sweep, if_neg (by simp)]
    exact Wal.read_compacting_sweep disk
  have hSteps :
      Wal.sweepSteps (Wal.open disk maxSegmentSize).1 =
        [] := by
    simp [Wal.sweepSteps, Disk.contains_eq, hTemp]
  rcases recover_spec hSteps now
    (Wal.open disk maxSegmentSize).2 cacheCapacity
    (WalReader.coherent_new _) with
    ⟨next, hNext, hDisk, hReader, hWal, hCache, hInner⟩
  exact ⟨next, hNext, hDisk, hDisk ▸ hReader, hWal, hCache,
    hInner⟩

/- Recovery never fails on the files it finds. -/
theorem Engine.reopen_ok
    (disk : Disk)
    (maxSegmentSize : Option Nat)
    (cacheCapacity : Nat)
    (now : UInt64) :
    (Engine.reopen disk maxSegmentSize cacheCapacity
      now).1 = .ok () := by
  rcases Engine.reopen_any_spec disk maxSegmentSize
    cacheCapacity now with ⟨next, hNext, _⟩
  rw [hNext]

/-
  Compaction and recovery see one history in any segments,
  opening keeps a prefix of it, and the second pass of
  recovery reads every record that the first one indexed.
-/
theorem Wal.scanners_agree
    (disk : Disk)
    (maxSegmentSize : Option Nat)
    (cacheCapacity : Nat)
    (now : UInt64) :
    (∀ ids,
      (∀ segmentId ∈ ids,
        ∃ content,
          disk.read (.wal segmentId) = some content) →
        Wal.IterationAgrees disk ids) ∧
      Wal.ActiveAgrees disk maxSegmentSize ∧
      Engine.SecondPassReads
        (Wal.open disk maxSegmentSize).1
        (.newWithCacheCapacity
          (Wal.open disk maxSegmentSize).2
          cacheCapacity) ∧
      (Engine.reopen disk maxSegmentSize cacheCapacity
        now).1 = .ok () := by
  refine ⟨?_, ?_, ?_, ?_⟩
  · intro ids hPresent
    exact Wal.iterationAgrees hPresent
  · exact Wal.activeAgrees disk maxSegmentSize
  · exact Engine.secondPassReads _ _ cacheCapacity
  · exact Engine.reopen_ok disk maxSegmentSize
      cacheCapacity now

end Nesso
