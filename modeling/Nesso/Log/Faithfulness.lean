import Nesso.Library.Transition
import Nesso.Log.TornTails

/-
  The log returns what was appended to it, through rotations,
  failed appends and reopenings.

  Key definitions include:
    * `LogState.step`
    * `LogRun`
    * `LogState.Faithful`

  The main theorem is:
    * `logRun_faithful`
-/

------------------------------------------------------------
-- Runs of the Log
------------------------------------------------------------

namespace Nesso

/-
  A log with a reader.  `appended` collects the records whose
  append returned a location; the program does not keep it.
-/
structure LogState where
  disk : Disk
  wal : Wal
  reader : WalReader
  appended : List (Loc × Record)

inductive LogAction where
| append (fault : Option AppendFault) (record : Record)
| «open» (maxSegmentSize : Option Nat)
| readAt (segmentId offset : Nat)

namespace LogState

variable [Hasher]

def step
    (state : LogState) : LogAction → Option LogState
| .append fault record =>
    let out :=
      Wal.append fault state.disk state.wal record
    some
      { state with
        disk := out.2.1
        wal := out.2.2
        appended :=
          match out.1 with
          | .ok loc => state.appended ++ [(loc, record)]
          | .error _ => state.appended }
| .open maxSegmentSize =>
    let opened := Wal.open state.disk maxSegmentSize
    some { state with disk := opened.1, wal := opened.2 }
| .readAt segmentId offset =>
    some
      { state with
        reader :=
          (state.reader.readAt state.disk segmentId
            offset).2 }

/- A log opened on an empty directory. -/
def start (maxSegmentSize : Option Nat) : LogState where
  disk := (Wal.open FileSystem.empty maxSegmentSize).1
  wal := (Wal.open FileSystem.empty maxSegmentSize).2
  reader := .new
  appended := []

end LogState

/- Appended payloads are within the limit. -/
def LogAction.Fits : LogAction → Prop
| append _ record => record.Fits
| _ => True

def LogRun [Hasher]
    (maxSegmentSize : Option Nat) :
    List LogAction → LogState → Prop :=
  Transition.Run LogState.step
    (fun _ action => action.Fits)
    (LogState.start maxSegmentSize)

end Nesso

------------------------------------------------------------
-- Settled Directories That Grow
------------------------------------------------------------

namespace Nesso

variable [Hasher]

/- A directory stays settled when its last segment grows. -/
theorem Disk.Settled.grows
    {disk next : Disk}
    (hSettled : disk.Settled)
    {target : Nat}
    {bytes : Bytes}
    (hGrows : disk.Grows next target bytes)
    (hLe :
      ∀ segmentId ∈ disk.segmentIds, segmentId ≤ target)
    (hOne : 1 ≤ target)
    (hWhole :
      Framing.validLength frameParser
          ((disk.read (.wal target)).getD [] ++ bytes) =
        ((disk.read (.wal target)).getD [] ++
          bytes).length) :
    next.Settled := by
  have hTarget : target ∈ next.segmentIds :=
    hGrows.mem_segmentIds_iff.mpr (.inl rfl)
  have hNextLe :
      ∀ segmentId ∈ next.segmentIds,
        segmentId ≤ target := by
    intro segmentId hMem
    rcases hGrows.mem_segmentIds_iff.mp hMem with
      hEq | hOld
    · exact le_of_eq hEq
    · exact hLe segmentId hOld
  have hLast :=
    Wal.lastSegmentId_eq_of_le hTarget hOne hNextLe
  constructor
  · intro name hName
    rw [hGrows.extends_disk.read_other hName]
    exact hSettled.clean name hName
  · exact List.ne_nil_of_mem hTarget
  · intro segmentId hMem
    rcases hGrows.mem_segmentIds_iff.mp hMem with
      hEq | hOld
    · rw [hEq]
      exact hOne
    · exact hSettled.one_le segmentId hOld
  · intro content hContent
    rw [hLast, hGrows.read_eq, if_pos rfl,
      Option.some.injEq] at hContent
    rw [← hContent]
    exact hWhole

/- The segment of the next append holds whole frames. -/
theorem Wal.Writable.target_whole
    {disk : Disk}
    {wal : Wal}
    (hWritable : wal.Writable disk)
    (hSettled : disk.Settled) :
    1 ≤ (ofLex wal.nextLoc).1 ∧
      Framing.validLength frameParser
          ((disk.read
            (.wal (ofLex wal.nextLoc).1)).getD []) =
        ((disk.read
          (.wal (ofLex wal.nextLoc).1)).getD
            []).length := by
  unfold Wal.nextLoc
  cases hRotates : wal.rotates with
  | true =>
      simp only [if_true, ofLex_toLex,
        hWritable.read_next_eq_none, Option.getD_none]
      exact ⟨Nat.le_add_left 1 _,
        Framing.validLength_eq_zero rfl⟩
  | false =>
      have hRead :=
        (hWritable.opened hRotates).read_active
      have hMem : wal.activeSegmentId ∈ disk.segmentIds :=
        Disk.mem_segmentIds_iff.mpr ⟨_, hRead⟩
      have hOne := hSettled.one_le _ hMem
      have hLast :=
        Wal.lastSegmentId_eq_of_le hMem hOne
          hWritable.ids_le
      have hWhole := hSettled.whole
      rw [hLast] at hWhole
      simp only [Bool.false_eq_true, if_false, ofLex_toLex,
        hRead, Option.getD_some]
      exact ⟨hOne, hWhole _ hRead⟩

/- A directory stays settled when a segment is started. -/
theorem Wal.Writable.settled_grows
    {disk next : Disk}
    {wal : Wal}
    (hWritable : wal.Writable disk)
    (hSettled : disk.Settled)
    (hGrows : disk.Grows next (ofLex wal.nextLoc).1 []) :
    next.Settled := by
  rcases hWritable.target_whole hSettled with
    ⟨hOne, hWhole⟩
  apply hSettled.grows hGrows hWritable.ids_le_nextLoc hOne
  simpa using hWhole

/- Opening a settled directory leaves it as it is. -/
theorem Wal.open_settled
    {disk : Disk}
    (hSettled : disk.Settled)
    (maxSegmentSize : Option Nat) :
    (Wal.open disk maxSegmentSize).1 = disk := by
  rcases Disk.mem_segmentIds_iff.mp hSettled.last_mem with
    ⟨content, hRead⟩
  rcases FileSystem.read_eq_some_iff.mp hRead with
    ⟨inode, hLookup, _⟩
  have hName :
      disk.names[FileName.wal (lastSegmentId disk)]? =
        some inode := hLookup
  rw [open_eq_activate, sweep_of_clean hSettled.clean,
    activateSteps_of_settled hSettled]
  simp [FileSystem.Step.exec, FileSystem.create, hName]

/- An empty directory is settled once it is opened. -/
theorem Disk.settled_open_empty
    (maxSegmentSize : Option Nat) :
    (Wal.open FileSystem.empty maxSegmentSize).1.Settled ∧
      Wal.entries
        (Wal.open FileSystem.empty maxSegmentSize).1 =
          [] := by
  have hClean : Disk.Clean FileSystem.empty := by
    intro name _
    simp
  have hIds :
      Disk.segmentIds FileSystem.empty = [] := by
    apply List.eq_nil_iff_forall_not_mem.mpr
    intro segmentId hMem
    rcases Disk.mem_segmentIds_iff.mp hMem with
      ⟨content, hRead⟩
    simp at hRead
  have hLast :
      Wal.lastSegmentId FileSystem.empty = 1 := by
    simp [Wal.lastSegmentId, hIds]
  have hRead :
      ∀ name,
        (Wal.open FileSystem.empty
            maxSegmentSize).1.read name =
          if name = .wal 1 then some [] else none := by
    intro name
    rw [Wal.read_open hClean, hLast]
    simp
  have hOpened :
      (Wal.open FileSystem.empty
        maxSegmentSize).1.segmentIds = [1] := by
    apply Disk.segmentIds_eq_of_mem_iff (by simp)
    intro segmentId
    simp [hRead]
  constructor
  · constructor
    · intro name hName
      rw [hRead, if_neg]
      intro hEq
      simp [hEq, FileName.segmentId?] at hName
    · simp [hOpened]
    · simp [hOpened]
    · intro content hContent
      rw [hRead] at hContent
      split at hContent
      · rw [Option.some.injEq] at hContent
        rw [← hContent]
        exact Framing.validLength_eq_zero rfl
      · simp at hContent
  · have hEmpty : segmentRecords ([] : Bytes) = [] :=
      Framing.scan_eq_nil
        (Framing.Parser.parse_nil frameParser) 0
    simp [Wal.entries, hOpened, hRead, Wal.segmentEntries,
      hEmpty]

end Nesso

------------------------------------------------------------
-- Faithful Logs
------------------------------------------------------------

namespace Nesso

namespace LogState

variable [Hasher]

structure Faithful (state : LogState) : Prop where
  settled : state.disk.Settled
  attached : state.wal.Attached state.disk
  entries_eq : Wal.entries state.disk = state.appended
  coherent : state.reader.Coherent state.disk

variable {state : LogState}

/- An append without a fault adds the record. -/
theorem Faithful.append_ok
    (hState : state.Faithful)
    {fault : Option AppendFault}
    (hFault : ∀ found ∈ fault, found.hits state.wal = false)
    {record : Record}
    (hFits : record.Fits)
    {next : LogState}
    (hNext :
      state.step (.append fault record) = some next) :
    next.Faithful := by
  have hWritable := hState.attached.writable
  rcases hWritable.append_ok hFault record with
    ⟨disk, wal, hAppend, hAttached, hGrows, _⟩
  rcases hWritable.target_whole hState.settled with
    ⟨hOne, hWhole⟩
  have hLe := hWritable.ids_le_nextLoc
  simp only [step, hAppend, Option.some.injEq] at hNext
  rw [← hNext]
  constructor
  · exact hState.settled.grows hGrows hLe hOne
      (whole_append_encode hWhole hFits)
  · exact hAttached
  · simp only
    rw [hGrows.entries_of_encode hLe hWhole hFits,
      ← hWritable.nextLoc_eq, hState.entries_eq]
  · exact hGrows.extends_disk.coherent hState.coherent

/- A failed append adds nothing. -/
theorem Faithful.append_error
    (hState : state.Faithful)
    {fault : AppendFault}
    (hHits : fault.hits state.wal = true)
    (record : Record)
    {next : LogState}
    (hNext :
      state.step (.append (some fault) record) =
        some next) :
    next.Faithful := by
  have hWritable := hState.attached.writable
  rcases hWritable.append_error hHits record with
    ⟨disk, wal, hAppend, _, hKept, hDisk, _⟩
  have hAttached := hKept hState.attached
  have hLe := hWritable.ids_le_nextLoc
  simp only [step, hAppend, Option.some.injEq] at hNext
  rw [← hNext]
  rcases hDisk with hSame | hGrows
  · rw [hSame] at hAttached ⊢
    exact ⟨hState.settled, hAttached, hState.entries_eq,
      hState.coherent⟩
  · constructor
    · exact hWritable.settled_grows hState.settled hGrows
    · exact hAttached
    · exact (hGrows.entries_of_nil hLe).trans
        hState.entries_eq
    · exact hGrows.extends_disk.coherent hState.coherent

theorem Faithful.step
    (hState : state.Faithful)
    {action : LogAction}
    (hFits : action.Fits)
    {next : LogState}
    (hNext : state.step action = some next) :
    next.Faithful := by
  cases action with
  | append fault record =>
      by_cases hHits :
          ∃ found ∈ fault, found.hits state.wal = true
      · rcases hHits with ⟨found, hFound, hHits⟩
        rw [Option.mem_def] at hFound
        rw [hFound] at hNext
        exact hState.append_error hHits record hNext
      · apply hState.append_ok ?_ hFits hNext
        intro found hFound
        cases hFault : found.hits state.wal with
        | false => rfl
        | true => exact (hHits ⟨found, hFound, hFault⟩).elim
  | «open» maxSegmentSize =>
      have hSame :=
        Wal.open_settled hState.settled maxSegmentSize
      have hOpened :=
        Wal.opened_open state.disk maxSegmentSize
      rw [hSame] at hOpened
      simp only [LogState.step, hSame, Option.some.injEq]
        at hNext
      rw [← hNext]
      exact ⟨hState.settled, hOpened.attached,
        hState.entries_eq, hState.coherent⟩
  | readAt segmentId offset =>
      simp only [LogState.step, Option.some.injEq] at hNext
      rw [← hNext]
      exact ⟨hState.settled, hState.attached,
        hState.entries_eq,
        hState.coherent.readAt segmentId offset⟩

theorem Faithful.start
    (maxSegmentSize : Option Nat) :
    (LogState.start maxSegmentSize).Faithful where
  settled := (Disk.settled_open_empty maxSegmentSize).1
  attached :=
    (Wal.opened_open FileSystem.empty
      maxSegmentSize).attached
  entries_eq := (Disk.settled_open_empty maxSegmentSize).2
  coherent := WalReader.coherent_new _

end LogState

/-
  Iterating yields exactly the appended records, in order and
  at the locations that were returned, and each can be read
  at its location.
-/
theorem logRun_faithful [Hasher]
    {maxSegmentSize : Option Nat}
    {actions : List LogAction}
    {state : LogState}
    (hRun : LogRun maxSegmentSize actions state) :
    (Wal.iterAll state.disk).2 = state.appended ∧
      state.appended.Pairwise
        (fun earlier later => earlier.1 < later.1) ∧
      state.wal.currentSize =
        (state.disk.contentOf
          state.wal.activeFile).length ∧
      ∀ entry ∈ state.appended,
        (state.reader.readAt state.disk
            (ofLex entry.1).1 (ofLex entry.1).2).1 =
          .ok (some entry.2) := by
  have hState : state.Faithful :=
    hRun.invariant (LogState.Faithful.start maxSegmentSize)
      (fun hState hFits hNext => hState.step hFits hNext)
  refine ⟨hState.entries_eq, ?_, ?_, ?_⟩
  · rw [← hState.entries_eq]
    exact Wal.entries_pairwise_lt state.disk
  · exact hState.attached.size_eq.symm
  · intro entry hEntry
    rw [← hState.entries_eq] at hEntry
    exact Wal.readAt_of_mem_entries hState.coherent hEntry

/- Appends that fail in every way, with reopenings. -/
def interruptedAppends : List LogAction :=
  [.append none ⟨1, .created, 5, [7]⟩,
    .append (some (.write 3)) ⟨2, .created, 5, [8]⟩,
    .append (some .rotateOpen) ⟨3, .created, 5, [9]⟩,
    .append none ⟨4, .created, 5, [10]⟩,
    .readAt 1 0,
    .open (some 100),
    .append (some .rotateSync) ⟨5, .created, 5, [11]⟩]

set_option maxRecDepth 100000 in
theorem logRun_faithful_interrupted :
    ∃ state,
      LogRun (some 0) interruptedAppends state ∧
        (Wal.iterAll state.disk).2 = state.appended ∧
        state.appended.map Prod.fst =
          [toLex (2, 0), toLex (5, 0), toLex (5, 20)] := by
  have hAllowed :
      ∀ _ : LogState, ∀ action ∈ interruptedAppends,
        action.Fits := by
    intro _ action hAction
    simp only [interruptedAppends, List.mem_cons,
      List.not_mem_nil, or_false] at hAction
    rcases hAction with h | h | h | h | h | h | h <;>
      subst h <;>
      simp [LogAction.Fits, Record.Fits, maxPayloadSize]
  have hExecute :
      (Transition.execute LogState.step interruptedAppends
        (LogState.start (some 0))).any
          (fun state =>
            state.appended.map Prod.fst =
              [toLex (2, 0), toLex (5, 0),
                toLex (5, 20)]) = true := by
    decide +kernel
  rcases Transition.exists_run_of_execute hAllowed hExecute
    with ⟨state, hRun, hEnd⟩
  refine ⟨state, hRun, (logRun_faithful hRun).1, ?_⟩
  simpa using hEnd

end Nesso
