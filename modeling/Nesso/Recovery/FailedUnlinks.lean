import Nesso.Log.Directories
import Nesso.Recovery.Restarts
import Nesso.Storage.Checksum

/-
  Compactions whose unlinks fail, and the tasks that the
  leftover segments bring back.

  Key definitions include:
    * `Replay.ending`
    * `Wal.Finished`
    * `EngineState.Holds`

  The main theorem is:
    * `Engine.reopen_failed_unlinks_iff`
-/

------------------------------------------------------------
-- How the Records of a Task End
------------------------------------------------------------

namespace Nesso

namespace Replay

/- Whether the latest record of a task is terminal. -/
def ending
    (records : List Record)
    (id : UInt64) : Option Bool :=
  (KeyedLog.latest Record.id records id).map
    (fun record => record.opType.isTerminal)

theorem ending_append
    (left right : List Record)
    (id : UInt64) :
    ending (left ++ right) id =
      (ending right id).or (ending left id) := by
  simp only [ending, KeyedLog.latest_append]
  cases KeyedLog.latest Record.id right id <;> simp

/- What a compacted segment can be read of is live in it. -/
theorem ending_takeWhile_compacted
    {closed : List Record}
    (readable : Record → Bool)
    {id : UInt64}
    {terminal : Bool}
    (hEnding :
      ending ((compacted closed).takeWhile readable) id =
        some terminal) :
    ending closed id = some false := by
  rcases Option.map_eq_some_iff.mp hEnding with
    ⟨record, hLatest, _⟩
  rcases KeyedLog.latest_mem hLatest with ⟨hMem, hId⟩
  have hCompacted :
      KeyedLog.latest Record.id (compacted closed) id =
        some record :=
    (KeyedLog.latest_eq_some_iff_of_nodup
      (compacted_ids_nodup closed)).mpr
        ⟨List.takeWhile_subset _ hMem, hId⟩
  rw [latest_compacted] at hCompacted
  rcases Option.map_eq_some_iff.mp hCompacted with
    ⟨last, hLast, _⟩
  rcases Option.filter_eq_some_iff.mp hLast with
    ⟨hFound, hLive⟩
  simpa [ending, hFound] using hLive

/-
  A finished task stays finished when what is left besides
  the compacted segment does not end with it live.
-/
theorem ending_compacted_ne_live
    {closed kept later : List Record}
    (readable : Record → Bool)
    {id : UInt64}
    (hBefore : ending (closed ++ later) id ≠ some false)
    (hKept : ending (kept ++ later) id ≠ some false) :
    ending
        ((compacted closed).takeWhile readable ++
          (kept ++ later)) id ≠ some false := by
  rw [ending_append]
  cases hLater : ending (kept ++ later) id with
  | some terminal =>
      simpa [hLater] using hKept
  | none =>
      intro hLive
      rw [Option.none_or] at hLive
      have hClosed :=
        ending_takeWhile_compacted readable hLive
      rw [ending_append] at hLater hBefore
      rw [(Option.or_eq_none_iff.mp hLater).1,
        Option.none_or] at hBefore
      exact hBefore hClosed

/- Live records in what is left keep the task live. -/
theorem ending_append_of_live
    {kept : List Record}
    {id : UInt64}
    (front : List Record)
    (hKept : ending kept id = some false) :
    ending (front ++ kept) id = some false := by
  rw [ending_append, hKept, Option.some_or]

end Replay

end Nesso

------------------------------------------------------------
-- Tasks That Recovery Brings Back
------------------------------------------------------------

namespace Nesso

/- A task that is ready or leased. -/
def EngineState.Holds
    (inner : EngineState)
    (id : UInt64) : Prop :=
  (∃ task ∈ inner.readyQueue.tasks, task.id = id) ∨
    id ∈ inner.leased

namespace EngineState.Recovered

variable {now : UInt64} {inner : EngineState}
variable {entries : List (Loc × Record)}

/- Recovery holds the tasks whose latest record is live. -/
theorem holds_iff
    (hInner : inner.Recovered now entries)
    (id : UInt64) :
    inner.Holds id ↔
      Replay.ending (entries.map Prod.snd) id =
        some false := by
  have hKey :
      (fun entry : Loc × Record => entry.2.id) =
        entryId := rfl
  have hIds :
      ∀ record task, Record.placeAt now record =
        .ready task → task.id = record.id := by
    intro record task hPlace
    exact (Record.id_of_placeAt_eq_ready hPlace).1
  have hEnding :
      Replay.ending (entries.map Prod.snd) id =
          some false ↔
        ∃ entry,
          KeyedLog.latest entryId entries id = some entry ∧
            entry.2.opType.isTerminal = false := by
    simp [Replay.ending, KeyedLog.latest_map, hKey]
  rw [hEnding]
  constructor
  · intro hHolds
    apply hInner.mem_dataIndex_iff.mp
    rcases hHolds with ⟨task, hTask, hId⟩ | hLeased
    · rw [← hId]
      exact hInner.placed.ready_data task hTask
    · exact hInner.placed.leased_data id hLeased
  · intro hLive
    rcases hLive with ⟨entry, hLatest, hOp⟩
    cases hPlace : entry.2.placeAt now with
    | ready task =>
        have hId : task.id = id := by
          rw [hIds _ _ hPlace]
          exact (KeyedLog.latest_mem hLatest).2
        refine Or.inl ⟨task, ?_, hId⟩
        rw [ReadyQueue.mem_tasks_iff, hInner.bucket_eq]
        apply List.mem_filter.mpr
        refine ⟨?_, by simp⟩
        rw [Replay.mem_ready_iff hIds, hId]
        exact ⟨entry, hLatest, hPlace⟩
    | leased lease =>
        refine Or.inr ?_
        apply Std.ExtTreeMap.isSome_getElem?_iff_mem.mp
        rw [hInner.leased_eq,
          Replay.lease_eq_some_iff.mpr
            ⟨entry, hLatest, hPlace⟩]
        rfl
    | terminal =>
        rw [Record.placeAt_eq_terminal_iff, hOp] at hPlace
        simp at hPlace

end EngineState.Recovered

namespace Engine

variable [Hasher]

/- Reopening a settled directory holds its live tasks. -/
theorem reopen_settled_spec
    {disk : Disk}
    (hSettled : disk.Settled)
    (maxSegmentSize : Option Nat)
    (cacheCapacity : Nat)
    (now : UInt64) :
    ∃ next,
      reopen disk maxSegmentSize cacheCapacity now =
          (.ok (), next) ∧
        ∀ id,
          next.inner.Holds id ↔
            Replay.ending
                (Wal.recordsIn disk disk.segmentIds) id =
              some false := by
  have hOpenClean :
      (Wal.open disk maxSegmentSize).1.Clean := by
    intro name hName
    rw [hSettled.read_open]
    exact hSettled.clean name hName
  rcases recover_spec
    (Wal.sweepSteps_of_clean hOpenClean) now
    (Wal.open disk maxSegmentSize).2 cacheCapacity
    (WalReader.coherent_new _) with
    ⟨next, hNext, _, _, _, _, hInner⟩
  rw [hSettled.entries_open] at hInner
  refine ⟨next, hNext, ?_⟩
  intro id
  rw [hInner.holds_iff, Wal.map_snd_entries]

end Engine

end Nesso

------------------------------------------------------------
-- Compacting with Failing Unlinks
------------------------------------------------------------

namespace Nesso

namespace Wal

variable [Hasher]

omit [Hasher] in
/- The next plan: everything but the active segment. -/
theorem planCompaction_lastSegmentId
    {disk : Disk}
    {front : List Nat}
    {last : Nat}
    (hIds : disk.segmentIds = front ++ [last])
    (hOne : 1 ≤ last)
    (hSome : front ≠ []) :
    planCompaction disk (lastSegmentId disk) =
      some front := by
  have hSorted := Disk.segmentIds_pairwise_lt disk
  rw [hIds, List.pairwise_append] at hSorted
  have hFilter :
      disk.segmentIds.filter (· < last) = front := by
    rw [hIds, List.filter_append]
    have hFront : front.filter (· < last) = front := by
      apply List.filter_eq_self.mpr
      intro segmentId hMem
      simpa using hSorted.2.2 segmentId hMem last (by simp)
    simp [hFront]
  simp [planCompaction, lastSegmentId_eq hIds hOne, hFilter,
    hSome]

/- The task was acked or dead-lettered. -/
def Finished
    (disk : Disk)
    (id : UInt64) : Prop :=
  Replay.ending (recordsIn disk disk.segmentIds) id =
    some true

instance
    (disk : Disk)
    (id : UInt64) :
    Decidable (Finished disk id) :=
  inferInstanceAs (Decidable (_ = _))

end Wal

end Nesso

------------------------------------------------------------
-- Resurrected Tasks
------------------------------------------------------------

namespace Nesso

variable [Hasher]

/-
  After a compaction with failing unlinks, and after another
  one, a restart holds no finished task exactly if no such
  task ends live in the segments that were kept.
-/
theorem Engine.reopen_failed_unlinks_iff
    {disk : Disk}
    (hSettled : disk.Settled)
    {ids front : List Nat}
    {last : Nat}
    (hIds : disk.segmentIds = ids ++ (front ++ [last]))
    (hSome : ids ≠ [])
    (fails again : Nat → Bool)
    (maxSegmentSize : Option Nat)
    (cacheCapacity : Nat)
    (now : UInt64) :
    ∃ swapped twice next later,
      Wal.compactSegments fails disk ids =
          (.ok (), swapped) ∧
        Engine.reopen swapped maxSegmentSize cacheCapacity
          now = (.ok (), next) ∧
        Wal.planCompaction swapped
            (Wal.lastSegmentId swapped) =
          some (1 :: (Wal.leftover fails ids ++ front)) ∧
        Wal.compactSegments again swapped
            (1 :: (Wal.leftover fails ids ++ front)) =
          (.ok (), twice) ∧
        Engine.reopen twice maxSegmentSize cacheCapacity
          now = (.ok (), later) ∧
        ((∀ id, Wal.Finished disk id →
            ¬ next.inner.Holds id ∧
              ¬ later.inner.Holds id) ↔
          ∀ id, Wal.Finished disk id →
            Replay.ending
                (Wal.recordsIn disk
                  (Wal.leftover fails ids ++
                    (front ++ [last]))) id ≠
              some false ∧
            Replay.ending
                (Wal.recordsIn disk
                  (Wal.leftover again
                    (Wal.leftover fails ids ++ front) ++
                      [last])) id ≠
              some false) := by
  rcases Wal.compactSegments_spec hSettled hIds hSome fails
    with ⟨swapped, hCompact, hSwapped, hSwappedIds, hOne,
      hKept⟩
  have hPlan :=
    Wal.planCompaction_lastSegmentId hSwappedIds
      (hSettled.one_le last (by simp [hIds])) (by simp)
  have hSplit :
      swapped.segmentIds =
        (1 :: (Wal.leftover fails ids ++ front)) ++
          ([] ++ [last]) := hSwappedIds
  rcases Wal.compactSegments_spec hSwapped hSplit (by simp)
    again with
    ⟨twice, hAgain, hTwice, hTwiceIds, hTwiceOne,
      hTwiceKept⟩
  rcases reopen_settled_spec hSwapped maxSegmentSize
    cacheCapacity now with ⟨next, hNext, hHolds⟩
  rcases reopen_settled_spec hTwice maxSegmentSize
    cacheCapacity now with ⟨later, hLater, hLaterHolds⟩
  refine ⟨swapped, twice, next, later, hCompact, hNext,
    hPlan, hAgain, hLater, ?_⟩
  have hRecords :=
    Wal.compactSegments_records
      (by simpa using hSwappedIds) hOne
      (hKept _ (by simp))
  have hTwiceRecords :=
    Wal.compactSegments_records
      (by simpa using hTwiceIds :
        twice.segmentIds =
          1 :: (Wal.leftover again
            (1 :: (Wal.leftover fails ids ++ front)) ++
              [last])) hTwiceOne
      (hTwiceKept _ (by simp))
  -- Segment 1 is always replaced, never left over.
  have hLeftover :
      Wal.leftover again
          (1 :: (Wal.leftover fails ids ++ front)) =
        Wal.leftover again
          (Wal.leftover fails ids ++ front) := by
    simp [Wal.leftover]
  have hTwiceDisk :
      Wal.recordsIn swapped
          (Wal.leftover again
            (Wal.leftover fails ids ++ front) ++ [last]) =
        Wal.recordsIn disk
          (Wal.leftover again
            (Wal.leftover fails ids ++ front) ++
              [last]) := by
    apply hKept
    intro segmentId hMem
    rcases List.mem_append.mp hMem with hLeft | hRight
    · have hOld := List.mem_of_mem_filter hLeft
      rcases List.mem_append.mp hOld with hOld | hOld <;>
        simp [hOld]
    · simp [List.mem_singleton.mp hRight]
  rw [hLeftover] at hTwiceRecords
  simp only [hHolds, hLaterHolds, hRecords]
  constructor
  · intro hNone id hFinished
    rcases hNone id hFinished with ⟨hFirst, hSecond⟩
    constructor
    · intro hLive
      exact hFirst (Replay.ending_append_of_live _ hLive)
    · intro hLive
      rw [hTwiceRecords, hTwiceDisk] at hSecond
      exact hSecond (Replay.ending_append_of_live _ hLive)
  · intro hKeptEnding id hFinished
    rcases hKeptEnding id hFinished with ⟨hFirst, hSecond⟩
    have hBefore :
        Replay.ending
            (Wal.recordsIn disk ids ++
              Wal.recordsIn disk (front ++ [last])) id ≠
          some false := by
      rw [← Wal.recordsIn_append, ← hIds,
        (hFinished : Replay.ending _ id = some true)]
      simp
    rw [Wal.recordsIn_append] at hFirst
    have hOnce :=
      Replay.ending_compacted_ne_live
        (fun record => record.Fits) hBefore hFirst
    refine ⟨by rwa [Wal.recordsIn_append], ?_⟩
    rw [hTwiceRecords, Wal.recordsIn_append]
    apply Replay.ending_compacted_ne_live
    · rw [← Wal.recordsIn_append, ← hSwappedIds, hRecords,
        Wal.recordsIn_append]
      exact hOnce
    · rw [← Wal.recordsIn_append, hTwiceDisk]
      exact hSecond

end Nesso

namespace Nesso

/-
  Task 1 was created in segment 2 and acked in segment 3.
-/
def ackedLaterSegments : List Segment :=
  [(1, []), (2, [⟨1, .created, 5, [7]⟩]),
    (3, [⟨1, .leased, 5, leasePayload 1 100 0⟩,
      ⟨1, .acked, 5, []⟩]),
    (4, [])]

set_option maxRecDepth 100000 in
/-
  Segment 2 stays behind when its unlink fails, and task 1
  is ready again.
-/
theorem Engine.reopen_resurrects_acked :
    Wal.Finished (Disk.ofSegments ackedLaterSegments) 1 ∧
      (Wal.compactSegments (· = 2)
        (Disk.ofSegments ackedLaterSegments)
          [1, 2, 3]).1.isOk = true ∧
      (Engine.reopen
        (Wal.compactSegments (· = 2)
          (Disk.ofSegments ackedLaterSegments)
            [1, 2, 3]).2 none 4 50).2.inner.Holds 1 := by
  refine ⟨by decide +kernel, by decide +kernel,
    Or.inl ⟨⟨1, 5, 0⟩, by decide +kernel, rfl⟩⟩

/- A leftover segment 3 only repeats the ack. -/
theorem Engine.reopen_failed_unlinks_iff_acked :
    ∃ swapped twice next later,
      Wal.compactSegments (· = 3)
          (Disk.ofSegments ackedLaterSegments) [1, 2, 3] =
            (.ok (), swapped) ∧
        Engine.reopen swapped none 4 50 = (.ok (), next) ∧
        Wal.planCompaction swapped
          (Wal.lastSegmentId swapped) = some [1, 3] ∧
        Wal.compactSegments (fun _ => false) swapped
          [1, 3] = (.ok (), twice) ∧
        Engine.reopen twice none 4 50 = (.ok (), later) ∧
        ((∀ id,
            Wal.Finished
                (Disk.ofSegments ackedLaterSegments) id →
              ¬ next.inner.Holds id ∧
                ¬ later.inner.Holds id) ↔
          ∀ id,
            Wal.Finished
                (Disk.ofSegments ackedLaterSegments) id →
              Replay.ending
                  (Wal.recordsIn
                    (Disk.ofSegments ackedLaterSegments)
                    [3, 4]) id ≠ some false ∧
              Replay.ending
                  (Wal.recordsIn
                    (Disk.ofSegments ackedLaterSegments)
                    [4]) id ≠ some false) := by
  have hSegments :
      SegmentsOn (Disk.ofSegments ackedLaterSegments)
        ackedLaterSegments := by
    apply SegmentsOn.ofSegments
    · decide
    · decide
    · decide
  have hSettled :=
    hSegments.settled (by decide) (Disk.clean_ofSegments _)
  have hIds :
      (Disk.ofSegments ackedLaterSegments).segmentIds =
        [1, 2, 3] ++ ([] ++ [4]) :=
    hSegments.segmentIds_eq
  exact Engine.reopen_failed_unlinks_iff hSettled hIds
    (by simp) (· = 3) (fun _ => false) none 4 50

end Nesso
