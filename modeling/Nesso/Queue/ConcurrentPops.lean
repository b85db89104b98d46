import Nesso.Log.Appending
import Nesso.Queue.CompactionRuns
import Nesso.Queue.ReaderCache
import Nesso.Storage.Checksum

/-
  Calls of `pop_and_lease` that read their payloads beside
  everything else.

  After its locked section a call reads without the engine
  lock, and takes it again only to look up a location that
  was not found.  Phase 2 of a compaction renames, unlinks
  and clears the handle cache under the lock, and reads may
  come between any two of these steps.

  Key definitions include:
    * `PopCall`
    * `PopSystem`
    * `PopSystem.step`
    * `PopSystem.Served`
    * `PopSystem.KeepsReads`

  The main theorems are:
    * `PopSystem.Steady.readAt`
    * `PopSystem.Swapping.readAt`
    * `PopSystem.Swapping.clearCache`
    * `popRun_served`
-/

------------------------------------------------------------
-- Calls in Flight
------------------------------------------------------------

namespace Nesso

/-
  Where a call is after its locked section: about to read a
  location, about to look the task up again, or returned.
  The source does not know whether the task was in the data
  index when the call returned.
-/
inductive PopStage where
| reading (loc : Loc) (retry : Nat)
| searching (retry : Nat)
| returned (result : Except IoError (Record × UInt8))
    (indexed : Bool)

structure PopCall where
  task : TaskRef
  stage : PopStage

namespace PopCall

/- Return a result. -/
def answer
    (call : PopCall)
    (inner : EngineState)
    (result : Except IoError (Record × UInt8)) : PopCall :=
  { call with
    stage :=
      .returned result
        (inner.dataIndex.contains call.task.id) }

/- Return the task with a payload. -/
def deliver
    (call : PopCall)
    (inner : EngineState)
    (payload : Bytes) : PopCall :=
  call.answer inner
    (.ok
      (⟨call.task.id, .created, call.task.priority,
        payload⟩, call.task.retries))

/- What a locked section leaves to do. -/
def ofTicket
    (task : TaskRef)
    (inner : EngineState) :
    Except IoError (Option PopTicket) → List PopCall
| .ok none => []
| .ok (some ticket) =>
    match ticket.cachedPayload with
    | some payload =>
        [deliver ⟨task, .reading ticket.dataLoc 0⟩ inner
          payload]
    | none => [⟨task, .reading ticket.dataLoc 0⟩]
| .error error =>
    [answer ⟨task, .searching 0⟩ inner (.error error)]

/- How the result of a read is handled. -/
def afterRead
    (call : PopCall)
    (inner : EngineState)
    (retry : Nat) :
    Except IoError (Option Record) → PopCall
| .ok (some record) => call.deliver inner record.userPayload
| .ok none =>
    call.answer inner
      (.error ⟨.invalidData, "Record not found at offset"⟩)
| .error error =>
    if error.kind = .notFound ∧ retry < 2 then
      { call with stage := .searching retry }
    else
      call.answer inner (.error error)

/- The second look at the data index, for the next try. -/
def afterLookUp
    (call : PopCall)
    (inner : EngineState)
    (retry : Nat) : PopCall :=
  match inner.dataIndex[call.task.id]? with
  | some loc => { call with stage := .reading loc (retry + 1) }
  | none =>
      call.answer inner
        (.error
          ⟨.notFound,
            "Missing data offset after compaction"⟩)

end PopCall

/-
  `unlinks` are the names that a phase 2 between its rename
  and `clear_cache` has yet to unlink.
-/
structure PopSystem where
  system : System
  unlinks : Option (List FileName)
  calls : List PopCall

inductive PopAction where
| run (action : Action)
| popLocked (consumerId : UInt32)
    (now leaseTtlSecs : UInt64)
| readAt (position : Nat)
| lookUp (position : Nat)
| rename
| unlink
| clearCache

/- The sections that are not split into smaller steps. -/
def Action.isWhole : Action → Bool
| .popLocked _ _ _ | .popRead _ | .compactPhase2 => false
| _ => true

namespace PopSystem

variable [Hasher]

def start
    (maxSegmentSize : Option Nat)
    (cacheCapacity : Nat)
    (now : UInt64) : PopSystem where
  system := .start maxSegmentSize cacheCapacity now
  unlinks := none
  calls := []

def popLocked
    (pop : PopSystem)
    (consumerId : UInt32)
    (now leaseTtlSecs : UInt64) : PopSystem :=
  let out :=
    pop.system.engine.popLocked none consumerId now
      leaseTtlSecs
  { pop with
    system := pop.system.popLocked consumerId now leaseTtlSecs
    calls :=
      match pop.system.engine.inner.readyQueue.pop with
      | none => pop.calls
      | some (task, _) =>
          pop.calls ++
            PopCall.ofTicket task out.2.inner out.1 }

/- One `read_at`, under the lock of the handle cache only. -/
def readAt
    (pop : PopSystem)
    (position : Nat) : Option PopSystem :=
  match pop.calls[position]? with
  | some call =>
      match call.stage with
      | .reading loc retry =>
          let engine := pop.system.engine
          let read :=
            engine.reader.readAt engine.disk (ofLex loc).1
              (ofLex loc).2
          some
            { pop with
              system :=
                { pop.system with
                  engine := { engine with reader := read.2 } }
              calls :=
                pop.calls.set position
                  (call.afterRead engine.inner retry
                    read.1) }
      | _ => none
  | none => none

/- The second look-up, under the engine lock. -/
def lookUp
    (pop : PopSystem)
    (position : Nat) : Option PopSystem :=
  match pop.calls[position]? with
  | some call =>
      match call.stage with
      | .searching retry =>
          some
            { pop with
              calls :=
                pop.calls.set position
                  (call.afterLookUp
                    pop.system.engine.inner retry) }
      | _ => none
  | none => none

/-
  Phase 2 takes the lock, writes the plan if it is missing,
  and renames.  Without the compacted file it fails.
-/
def rename (pop : PopSystem) : Option PopSystem :=
  match pop.system.compaction with
  | .written closedSegments _ =>
      let engine := pop.system.engine
      if engine.disk.contains .compacting then
        some
          { pop with
            system :=
              { pop.system with
                engine :=
                  { engine with
                    disk :=
                      (engine.disk.execAll
                        (Wal.prepareSteps engine.disk
                          closedSegments)).rename
                            .compacting (.wal 1) } }
            unlinks :=
              some (Wal.unlinkedNames closedSegments) }
      else
        pop.system.compactPhase2.map
          (fun system => { pop with system := system })
  | _ => none

def unlink (pop : PopSystem) : Option PopSystem :=
  match pop.unlinks with
  | some (name :: names) =>
      some
        { pop with
          system :=
            { pop.system with
              engine :=
                { pop.system.engine with
                  disk :=
                    pop.system.engine.disk.remove name } }
          unlinks := some names }
  | _ => none

/- Remap the indexes, clear the cache, release the lock. -/
def clearCache (pop : PopSystem) : Option PopSystem :=
  match pop.unlinks, pop.system.compaction with
  | some [], .written closedSegments newOffsets =>
      let engine := pop.system.engine
      some
        { pop with
          system :=
            { pop.system with
              engine :=
                { disk := engine.disk
                  inner :=
                    engine.inner.remap closedSegments
                      newOffsets
                  reader := engine.reader.clearCache }
              compaction := .idle }
          unlinks := none }
  | _, _ => none

/- Whether phase 2 holds the engine lock. -/
def locked (pop : PopSystem) : Bool :=
  pop.unlinks.isSome

def step
    (pop : PopSystem) : PopAction → Option PopSystem
| .run action =>
    if pop.locked ∨ ¬ action.isWhole then
      none
    else
      (pop.system.step action).map
        (fun system => { pop with system := system })
| .popLocked consumerId now leaseTtlSecs =>
    if pop.locked then
      none
    else
      some (pop.popLocked consumerId now leaseTtlSecs)
| .readAt position => pop.readAt position
| .lookUp position =>
    if pop.locked then none else pop.lookUp position
| .rename => if pop.locked then none else pop.rename
| .unlink => pop.unlink
| .clearCache => pop.clearCache

end PopSystem

end Nesso

------------------------------------------------------------
-- Served Calls
------------------------------------------------------------

namespace Nesso

variable [Hasher]

/- The user payload of the frame at an offset. -/
def payloadAt
    (content : Bytes)
    (offset : Nat) : Option Bytes :=
  match WalReader.frameResult
      (readFrame (content.drop offset)) with
  | .ok (some record) => some record.userPayload
  | _ => none

def Disk.payloadAt
    (disk : Disk)
    (name : FileName)
    (offset : Nat) : Option Bytes :=
  (disk.read name).bind
    (fun content => Nesso.payloadAt content offset)

omit [Hasher] in
/-
  A returned record has the pushed payload, and a call for a
  task in the data index has not failed.
-/
structure Answers
    (pushed : Option Bytes)
    (task : TaskRef)
    (result : Except IoError (Record × UInt8))
    (indexed : Bool) : Prop where
  payload :
    ∀ record retries,
      result = .ok (record, retries) →
        record.id = task.id ∧ pushed = some record.payload
  no_error :
    indexed = true →
      ∃ record retries, result = .ok (record, retries)

namespace PopSystem

omit [Hasher] in
/- Every call that has returned is answered correctly. -/
def Served (pop : PopSystem) : Prop :=
  ∀ call ∈ pop.calls, ∀ result indexed,
    call.stage = .returned result indexed →
      Answers (lastPayload pop.system.history call.task.id)
        call.task result indexed

/-
  The condition: when the compacted file is renamed, every
  call that is about to read segment 1 finds the same payload
  at its offset in the compacted file.
-/
def KeepsReads
    (pop : PopSystem) : PopAction → Prop
| .run action => action.ShortPush
| .rename =>
    ∀ call ∈ pop.calls, ∀ offset retry,
      call.stage = .reading (toLex (1, offset)) retry →
        pop.system.engine.disk.payloadAt .compacting
            offset =
          pop.system.engine.disk.payloadAt (.wal 1) offset
| _ => True

omit [Hasher] in
/- The bound on payloads alone. -/
def ShortPushes
    (_ : PopSystem) : PopAction → Prop
| .run action => action.ShortPush
| _ => True

end PopSystem

end Nesso

------------------------------------------------------------
-- Single Reads
------------------------------------------------------------

namespace Nesso

/- More bytes behind a whole frame do not matter. -/
theorem readFrame_append
    {rest fullRecord : Bytes}
    (hRead : readFrame rest = .frame fullRecord)
    (more : Bytes) :
    readFrame (rest ++ more) = .frame fullRecord := by
  rcases of_readFrame_eq_frame hRead with
    ⟨hHeader, hMagic, hBound, hWhole, hFull⟩
  have hLength :
      extractPayloadLen (rest ++ more) =
        extractPayloadLen rest := by
    have hTake :
        extractPayloadLen
            ((rest ++ more).take rest.length) =
          extractPayloadLen (rest ++ more) :=
      extractPayloadLen_take hHeader
    rw [List.take_left] at hTake
    exact hTake.symm
  have hFirst :
      (rest ++ more).getD 0 0 = rest.getD 0 0 := by
    have hPositive : 0 < rest.length := by
      simp only [headerSize] at hHeader
      omega
    simp [List.getD, List.getElem?_append_left hPositive]
  have hTotal :
      (rest ++ more).length = rest.length + more.length :=
    List.length_append
  simp only [readFrame, hLength, hFirst]
  rw [if_neg (by omega), if_neg (by simpa using hMagic),
    if_neg (by omega), if_neg (by omega), hFull,
    List.take_append_of_le_length hWhole]

namespace WalReader

variable [Hasher]
variable {reader : WalReader} {disk : Disk}

/-
  A read finds no file, or reads a file that the cache or the
  directory names, and keeps handles of such files only.
-/
theorem readAt_cases
    (Linked : Nat → Nat → Prop)
    (hCached :
      ∀ entry ∈ reader.readCache, Linked entry.1 entry.2)
    (segmentId offset : Nat)
    (hNamed :
      ∀ inode, disk.lookup (.wal segmentId) = some inode →
        Linked segmentId inode) :
    (reader.readAt disk segmentId offset =
          (.error IoError.fileNotFound, reader) ∧
        disk.lookup (.wal segmentId) = none) ∨
      ∃ inode next,
        reader.readAt disk segmentId offset =
            (frameResult
              (readFrame
                ((disk.contentOf inode).drop offset)),
              next) ∧
          Linked segmentId inode ∧
          ∀ entry ∈ next.readCache,
            Linked entry.1 entry.2 := by
  unfold readAt openHandle
  cases hFind :
      reader.readCache.find? (·.1 = segmentId) with
  | some entry =>
      have hMem := List.mem_of_find?_eq_some hFind
      have hSegment : entry.1 = segmentId := by
        simpa using List.find?_some hFind
      refine .inr ⟨entry.2, _, rfl, ?_, ?_⟩
      · rw [← hSegment]
        exact hCached entry hMem
      · intro other hOther
        rcases List.mem_append.mp hOther with hOld | hLast
        · exact hCached other (List.mem_of_mem_erase hOld)
        · rw [List.mem_singleton.mp hLast]
          exact hCached entry hMem
  | none =>
      cases hLookup : disk.lookup (.wal segmentId) with
      | none => exact .inl ⟨rfl, rfl⟩
      | some inode =>
          refine .inr ⟨inode, _, rfl, hNamed inode hLookup, ?_⟩
          intro other hOther
          rcases List.mem_append.mp hOther with hOld | hLast
          · apply hCached
            split at hOld
            · exact List.mem_of_mem_drop hOld
            · exact hOld
          · rw [List.mem_singleton.mp hLast]
            exact hNamed inode hLookup

/- A coherent reader reads the current file, if any. -/
theorem Coherent.readAt_cases
    (hCoherent : reader.Coherent disk)
    (segmentId offset : Nat) :
    (reader.readAt disk segmentId offset =
          (.error IoError.fileNotFound, reader) ∧
        disk.read (.wal segmentId) = none) ∨
      ∃ content next,
        reader.readAt disk segmentId offset =
            (frameResult (readFrame (content.drop offset)),
              next) ∧
          disk.read (.wal segmentId) = some content := by
  have hCases :=
    WalReader.readAt_cases
      (fun segmentId inode =>
        disk.lookup (.wal segmentId) = some inode)
      hCoherent segmentId offset (fun _ hLookup => hLookup)
  rcases hCases with
    ⟨hMissing, hLookup⟩ | ⟨inode, next, hRead, hLookup, _⟩
  · refine .inl ⟨hMissing, ?_⟩
    simp only [FileSystem.read, hLookup, Option.map_none]
  · refine .inr ⟨disk.contentOf inode, next, hRead, ?_⟩
    simp only [FileSystem.read, hLookup, Option.map_some]

end WalReader

variable [Hasher]

theorem frameResult_of_payloadAt
    {content payload : Bytes}
    {offset : Nat}
    (hPayload : payloadAt content offset = some payload) :
    ∃ record,
      WalReader.frameResult
          (readFrame (content.drop offset)) =
          .ok (some record) ∧
        record.userPayload = payload := by
  unfold payloadAt at hPayload
  split at hPayload
  · next record hRecord =>
      rw [Option.some.injEq] at hPayload
      exact ⟨record, hRecord, hPayload⟩
  · simp at hPayload

/- A segment keeps its payloads when it grows. -/
theorem payloadAt_append
    {content payload : Bytes}
    {offset : Nat}
    (hPayload : payloadAt content offset = some payload)
    (more : Bytes) :
    payloadAt (content ++ more) offset = some payload := by
  rcases frameResult_of_payloadAt hPayload with
    ⟨record, hResult, hUser⟩
  cases hFrame : readFrame (content.drop offset) with
  | frame fullRecord =>
      have hBound : offset ≤ content.length := by
        by_contra hBeyond
        rw [List.drop_of_length_le (by omega)] at hFrame
        simp [readFrame, headerSize] at hFrame
      have hGrown := readFrame_append hFrame more
      rw [hFrame] at hResult
      rw [payloadAt, List.drop_append_of_le_length hBound,
        hGrown, hResult]
      exact congrArg some hUser
  | shortHeader =>
      simp [hFrame, WalReader.frameResult] at hResult
  | badMagic =>
      simp [hFrame, WalReader.frameResult] at hResult
  | tooLong =>
      simp [hFrame, WalReader.frameResult] at hResult
  | shortPayload =>
      simp [hFrame, WalReader.frameResult] at hResult

end Nesso

------------------------------------------------------------
-- Sections Beside the Reads
------------------------------------------------------------

namespace Nesso

variable [Hasher]

/- The writer of a tracked log is attached to it. -/
theorem Wal.Tracks.attached
    {disk : Disk}
    {wal : Wal}
    {log : SegmentedLog}
    (hTracks : wal.Tracks disk log) :
    wal.Attached disk where
  ids_le := by
    intro segmentId hMem
    rw [hTracks.segmentsOn.segmentIds_eq, List.mem_map]
      at hMem
    rcases hMem with ⟨segment, hSegment, rfl⟩
    rw [hTracks.activeSegmentId_eq]
    exact hTracks.segmentsOn.le_activeId hSegment
  size_eq := by
    have hRead :
        disk.read (.wal log.activeId) =
          some (encodeRecords log.active) :=
      hTracks.segmentsOn.read_of_mem
        (by simp [SegmentedLog.segments])
    rw [FileSystem.read, hTracks.activeFile_eq,
      Option.map_some, Option.some.injEq] at hRead
    rw [hRead, hTracks.currentSize_eq]
  lookup_eq := by
    intro _
    rw [hTracks.activeSegmentId_eq]
    exact hTracks.activeFile_eq

namespace Engine

omit [Hasher] in
/-
  What a section leaves alone: segments only grow, missing
  ones below the active segment stay missing, and a known
  task keeps its data location or loses it.
-/
structure Advances (engine next : Engine) : Prop where
  nextId_le : engine.inner.nextId ≤ next.inner.nextId
  active_le :
    engine.inner.wal.activeSegmentId ≤
      next.inner.wal.activeSegmentId
  grows :
    ∀ {segmentId content},
      engine.disk.read (.wal segmentId) = some content →
        ∃ more,
          next.disk.read (.wal segmentId) =
            some (content ++ more)
  missing :
    ∀ {segmentId},
      segmentId < engine.inner.wal.activeSegmentId →
        engine.disk.read (.wal segmentId) = none →
          next.disk.read (.wal segmentId) = none
  indexed :
    ∀ {id loc},
      id < engine.inner.nextId →
        next.inner.dataIndex[id]? = some loc →
          engine.inner.dataIndex[id]? = some loc

namespace Advances

variable {engine middle next : Engine}

omit [Hasher] in
/- Sections that leave the segments and the index alone. -/
theorem of_fields_eq
    (hNextId : next.inner.nextId = engine.inner.nextId)
    (hWal : next.inner.wal = engine.inner.wal)
    (hRead :
      ∀ segmentId,
        next.disk.read (.wal segmentId) =
          engine.disk.read (.wal segmentId))
    (hIndex :
      next.inner.dataIndex = engine.inner.dataIndex) :
    engine.Advances next where
  nextId_le := by
    rw [hNextId]
    exact UInt64.le_refl _
  active_le := by
    rw [hWal]
  grows := by
    intro segmentId content hContent
    refine ⟨[], ?_⟩
    rw [hRead, hContent, List.append_nil]
  missing := by
    intro segmentId _ hNone
    rw [hRead]
    exact hNone
  indexed := by
    intro id loc _ hLoc
    rw [← hIndex]
    exact hLoc

omit [Hasher] in
theorem refl
    (engine : Engine) :
    engine.Advances engine :=
  of_fields_eq rfl rfl (fun _ => rfl) rfl

omit [Hasher] in
theorem trans
    (hFirst : engine.Advances middle)
    (hSecond : middle.Advances next) :
    engine.Advances next where
  nextId_le :=
    UInt64.le_trans hFirst.nextId_le hSecond.nextId_le
  active_le :=
    le_trans hFirst.active_le hSecond.active_le
  grows := by
    intro segmentId content hContent
    rcases hFirst.grows hContent with ⟨more, hMiddle⟩
    rcases hSecond.grows hMiddle with ⟨most, hNext⟩
    refine ⟨more ++ most, ?_⟩
    rw [hNext, List.append_assoc]
  missing := by
    intro segmentId hBelow hNone
    exact hSecond.missing
      (lt_of_lt_of_le hBelow hFirst.active_le)
      (hFirst.missing hBelow hNone)
  indexed := by
    intro id loc hKnown hLoc
    exact hFirst.indexed hKnown
      (hSecond.indexed
        (UInt64.lt_of_lt_of_le hKnown hFirst.nextId_le) hLoc)

end Advances

omit [Hasher] in
/- A change only adds the location of a new task. -/
theorem dataIndex_apply
    {inner : EngineState}
    {change : Change}
    {loc : Loc}
    {id : UInt64}
    {found : Loc}
    (hKnown : id < inner.nextId)
    (hFound :
      (change.apply inner loc).dataIndex[id]? =
        some found) :
    inner.dataIndex[id]? = some found := by
  cases change with
  | add priority payload =>
      simp only [Change.apply,
        Std.ExtTreeMap.getElem?_insert] at hFound
      split at hFound
      · next hId =>
          rw [Std.LawfulEqCmp.compare_eq_iff_eq] at hId
          rw [hId] at hKnown
          exact (UInt64.lt_irrefl _ hKnown).elim
      · exact hFound
  | finish other priority deadRetries =>
      simp only [Change.apply,
        Std.ExtTreeMap.getElem?_erase] at hFound
      split at hFound
      · simp at hFound
      · exact hFound
  | grant task rest consumerId expireTimestamp =>
      exact hFound
  | retry other priority retries failureType =>
      exact hFound

/- Performing a change advances the engine. -/
theorem advances_perform
    {engine : Engine}
    {change : Change}
    (hAttached : engine.inner.wal.Attached engine.disk)
    (hNextId :
      ∀ loc,
        engine.inner.nextId ≤
          (change.apply engine.inner loc).nextId) :
    engine.Advances (engine.perform change) ∧
      (engine.perform change).inner.wal.Attached
        (engine.perform change).disk := by
  have hFault :
      ∀ found ∈ (none : Option AppendFault),
        found.hits engine.inner.wal = false := by
    simp
  rcases hAttached.writable.append_ok hFault
    (change.record engine.inner) with
    ⟨disk, wal, hAppend, hNext, hGrows, hActive⟩
  have hTarget := engine.inner.wal.activeSegmentId_le_nextLoc
  simp only [perform, hAppend]
  refine ⟨⟨hNextId _, hActive, ?_, ?_, ?_⟩, hNext⟩
  · intro segmentId content hContent
    dsimp only
    rw [hGrows.read_eq]
    split
    · next hEq =>
        rw [← hEq, hContent]
        exact ⟨_, rfl⟩
    · exact ⟨[], by rw [hContent, List.append_nil]⟩
  · intro segmentId hBelow hNone
    dsimp only
    rw [hGrows.read_eq, if_neg]
    · exact hNone
    · intro hEq
      rw [FileName.wal.injEq] at hEq
      omega
  · intro id loc hKnown hLoc
    exact dataIndex_apply hKnown hLoc

end Engine

end Nesso

namespace Nesso

namespace System

/- The engine advances, and known payloads stay. -/
structure Advances (system next : System) : Prop where
  engine : system.engine.Advances next.engine
  pushed :
    ∀ {id},
      id < system.engine.inner.nextId →
        lastPayload next.history id =
          lastPayload system.history id

variable [Hasher]
variable {system next : System}

omit [Hasher] in
/- A section whose events push nothing. -/
theorem advances_of_events
    (hEngine : system.engine.Advances next.engine)
    {events : List Event}
    (hHistory : next.history = system.history ++ events)
    (hEvents :
      ∀ event ∈ events, ∀ id, Event.pushOf id event = none) :
    system.Advances next where
  engine := hEngine
  pushed := by
    intro id _
    rw [hHistory]
    exact lastPayload_append_other
      (fun event hEvent => hEvents event hEvent id)

omit [Hasher] in
theorem nextId_failure
    (inner : EngineState)
    (id : UInt64)
    (priority retries : UInt8)
    (failureType : OpType)
    (loc : Loc) :
    inner.nextId ≤
      ((Change.failure id priority retries failureType).apply
        inner loc).nextId := by
  unfold Change.failure
  split <;> exact UInt64.le_refl _

theorem advances_popLocked
    (hAttached :
      system.engine.inner.wal.Attached system.engine.disk)
    (consumerId : UInt32)
    (now leaseTtlSecs : UInt64) :
    system.Advances
      (system.popLocked consumerId now leaseTtlSecs) := by
  apply advances_of_events _ rfl
  · exact pushOf_grantEvents system.engine
  · unfold popLocked
    rw [Engine.popLocked_none]
    cases hPop : system.engine.inner.readyQueue.pop with
    | none => exact .refl _
    | some popped =>
        rcases popped with ⟨task, rest⟩
        have hGranted :=
          (Engine.advances_perform hAttached
            (show ∀ loc, system.engine.inner.nextId ≤
                ((Change.grant task rest consumerId
                  (now + leaseTtlSecs)).apply
                    system.engine.inner loc).nextId from
              fun _ => UInt64.le_refl _)).1
        dsimp only
        split
        · exact hGranted
        · exact hGranted.trans
            (.of_fields_eq rfl rfl (fun _ => rfl) rfl)

theorem advances_ack
    (hAttached :
      system.engine.inner.wal.Attached system.engine.disk)
    (id : UInt64)
    (consumerId : UInt32) :
    system.Advances (system.ack id consumerId) := by
  apply advances_of_events _ rfl
  · exact pushOf_eventIf (fun _ _ => rfl)
  · unfold ack
    rw [Engine.ack_none]
    cases hLease : system.engine.inner.leased[id]? with
    | none => exact .refl _
    | some lease =>
        dsimp only
        split
        · exact
            (Engine.advances_perform hAttached
              (fun _ => UInt64.le_refl _)).1
        · exact .refl _

theorem advances_nack
    (hAttached :
      system.engine.inner.wal.Attached system.engine.disk)
    (id : UInt64)
    (consumerId : UInt32) :
    system.Advances (system.nack id consumerId) := by
  apply advances_of_events _ rfl
  · exact pushOf_eventIf (fun _ _ => rfl)
  · unfold nack
    rw [Engine.nack_none]
    cases hLease : system.engine.inner.leased[id]? with
    | none => exact .refl _
    | some lease =>
        dsimp only
        split
        · exact
            (Engine.advances_perform hAttached
              (nextId_failure _ _ _ _ _)).1
        · exact .refl _

theorem advances_processExpired
    {engine : Engine}
    (hAttached : engine.inner.wal.Attached engine.disk)
    (tasks : List ExpiredTask) :
    engine.Advances
      (engine.processExpired
        (tasks.map (fun task => (none, task)))) := by
  induction tasks generalizing engine with
  | nil => exact .refl _
  | cons task tasks ih =>
      rcases Engine.advances_perform hAttached
        (nextId_failure engine.inner task.id task.priority
          task.retries .expired) with ⟨hFirst, hNext⟩
      have hRest := ih hNext
      rw [← Engine.expireTask_none] at hFirst hRest
      exact hFirst.trans hRest

end System

end Nesso

namespace Nesso

namespace System

variable [Hasher]
variable {system next : System}

theorem Sound.attached
    (hSystem : system.Sound) :
    system.engine.inner.wal.Attached system.engine.disk := by
  rcases hSystem.serves with ⟨log, hEngine, _⟩
  exact hEngine.tracks.attached

theorem advances_push
    (hAttached :
      system.engine.inner.wal.Attached system.engine.disk)
    {payload : Bytes}
    {priority : UInt8}
    (hPush : system.push payload priority = some next) :
    system.Advances next := by
  rcases push_cases hPush with ⟨hLeft, rfl⟩
  have hNextId :
      ∀ loc,
        system.engine.inner.nextId ≤
          ((Change.add priority payload).apply
            system.engine.inner loc).nextId :=
    fun _ => UInt64.le_of_lt (UInt64.lt_add_one_of_ne hLeft)
  constructor
  · exact (Engine.advances_perform hAttached hNextId).1
  · intro id hKnown
    apply lastPayload_append_other
    intro event hEvent
    rw [List.mem_singleton] at hEvent
    have hNe : system.engine.inner.nextId ≠ id := by
      intro hEq
      rw [hEq] at hKnown
      exact UInt64.lt_irrefl _ hKnown
    rw [hEvent]
    simp [Event.pushOf, hNe]

theorem advances_compactPhase1
    (hSystem : system.Sound)
    (hStep : system.compactPhase1 = some next) :
    system.Advances next := by
  rcases hSystem.serves with ⟨log, hEngine, hStage⟩
  rcases compactPhase1_cases hStep with
    ⟨closedSegments, hPlanned, rfl⟩
  rw [hPlanned] at hStage
  rcases hStage with ⟨closed, rest, hClosed, _, rfl⟩
  rcases hEngine.compactPhase1 hClosed with
    ⟨engine, hPhase, hNext, hInner, _⟩
  have hRead :
      ∀ segmentId,
        engine.disk.read (.wal segmentId) =
          system.engine.disk.read (.wal segmentId) := by
    intro segmentId
    apply Option.ext
    intro content
    rw [hNext.tracks.segmentsOn.read_iff,
      hEngine.tracks.segmentsOn.read_iff]
  refine advances_of_events ?_ (List.append_nil _).symm
    (by simp)
  simp only [hPhase]
  exact .of_fields_eq (by rw [hInner]) (by rw [hInner])
    hRead (by rw [hInner])

omit [Hasher] in
/- A section that changes nothing in the engine. -/
theorem advances_of_engine_eq
    (hEngine : next.engine = system.engine)
    (hHistory : next.history = system.history) :
    system.Advances next where
  engine := by
    rw [hEngine]
    exact .refl _
  pushed := by
    intro id _
    rw [hHistory]

/- Whole sections advance the system. -/
theorem Sound.advances
    (hSystem : system.Sound)
    {action : Action}
    (hWhole : action.isWhole = true)
    (hStep : system.step action = some next) :
    system.Advances next := by
  have hAttached := hSystem.attached
  cases action with
  | push payload priority =>
      exact advances_push hAttached hStep
  | popLocked consumerId now leaseTtlSecs =>
      simp [Action.isWhole] at hWhole
  | popRead ticket => simp [Action.isWhole] at hWhole
  | ack id consumerId =>
      rw [System.step, Option.some.injEq] at hStep
      rw [← hStep]
      exact advances_ack hAttached id consumerId
  | nack id consumerId =>
      rw [System.step, Option.some.injEq] at hStep
      rw [← hStep]
      exact advances_nack hAttached id consumerId
  | compactPlan =>
      rcases compactPlan_cases hStep with rfl | ⟨_, _, rfl⟩
      · exact advances_of_engine_eq rfl rfl
      · exact advances_of_engine_eq rfl rfl
  | compactPhase1 =>
      exact advances_compactPhase1 hSystem hStep
  | compactPhase2 => simp [Action.isWhole] at hWhole
  | snapshotExpired now tasks =>
      rcases snapshotExpired_cases hStep with ⟨_, _, rfl⟩
      exact advances_of_engine_eq rfl rfl
  | processExpired =>
      rcases processExpired_cases hStep with
        ⟨snapshot, _, rfl⟩
      apply advances_of_events _ rfl
      · intro event hEvent id
        rcases List.mem_map.mp hEvent with ⟨task, _, rfl⟩
        rfl
      · exact advances_processExpired hAttached
          snapshot.tasks
  | clearPayloadCache =>
      rw [System.step, Option.some.injEq] at hStep
      rw [← hStep]
      refine advances_of_events ?_ (List.append_nil _).symm
        (by simp)
      exact .of_fields_eq rfl rfl (fun _ => rfl) rfl

end System

end Nesso

------------------------------------------------------------
-- Valid Calls
------------------------------------------------------------

namespace Nesso

variable [Hasher]

/- A location holds the payload that was pushed. -/
def Disk.HoldsPayload
    (disk : Disk)
    (loc : Loc)
    (pushed : Option Bytes) : Prop :=
  ∃ payload,
    pushed = some payload ∧
      disk.payloadAt (.wal (ofLex loc).1) (ofLex loc).2 =
        some payload

theorem Disk.payloadAt_eq_some_iff
    {disk : Disk}
    {name : FileName}
    {offset : Nat}
    {payload : Bytes} :
    disk.payloadAt name offset = some payload ↔
      ∃ content,
        disk.read name = some content ∧
          Nesso.payloadAt content offset = some payload := by
  unfold Disk.payloadAt
  exact Option.bind_eq_some_iff

omit [Hasher] in
/- The segment of a location has been compacted away. -/
structure Engine.Lacks
    (engine : Engine)
    (loc : Loc) : Prop where
  above : 1 < (ofLex loc).1
  below :
    (ofLex loc).1 < engine.inner.wal.activeSegmentId
  unlinked : engine.disk.read (.wal (ofLex loc).1) = none

/-
  A location that a call may read.  Only the first one can be
  compacted away, and the task has then moved to segment 1.
-/
structure Engine.CanRead
    (engine : Engine)
    (pushed : Option Bytes)
    (id : UInt64)
    (loc : Loc)
    (retry : Nat) : Prop where
  place :
    engine.disk.HoldsPayload loc pushed ∨
      (engine.Lacks loc ∧ retry = 0)
  retries : retry = 0 ∨ (retry = 1 ∧ (ofLex loc).1 = 1)
  indexed :
    ∀ found,
      engine.inner.dataIndex[id]? = some found →
        found = loc ∨ (ofLex found).1 = 1

/-
  What is true of a call at any time; `moving` are segments
  that have been compacted and not yet remapped.
-/
def PopCall.Valid
    (engine : Engine)
    (payloads : UInt64 → Option Bytes)
    (moving : List Nat)
    (call : PopCall) : Prop :=
  call.task.id < engine.inner.nextId ∧
    match call.stage with
    | .reading loc retry =>
        engine.CanRead (payloads call.task.id) call.task.id
          loc retry
    | .searching retry =>
        retry = 0 ∧
          ∀ found,
            engine.inner.dataIndex[call.task.id]? =
                some found →
              (ofLex found).1 = 1 ∨ (ofLex found).1 ∈ moving
    | .returned result indexed =>
        Answers (payloads call.task.id) call.task result
          indexed

namespace PopCall

variable {engine : Engine}
variable {payloads : UInt64 → Option Bytes}
variable {moving : List Nat} {call : PopCall}

theorem valid_deliver
    (hKnown : call.task.id < engine.inner.nextId)
    {payload : Bytes}
    (hPayload : payloads call.task.id = some payload)
    (inner : EngineState) :
    (call.deliver inner payload).Valid engine payloads
      moving := by
  refine ⟨hKnown, ?_, ?_⟩
  · intro record retries hResult
    rw [Except.ok.injEq, Prod.mk.injEq] at hResult
    rw [← hResult.1]
    exact ⟨rfl, hPayload⟩
  · intro _
    exact ⟨_, _, rfl⟩

/- A call may fail for a task that is not indexed. -/
theorem valid_answer_error
    (hKnown : call.task.id < engine.inner.nextId)
    {inner : EngineState}
    (hGone : inner.dataIndex[call.task.id]? = none)
    (error : IoError) :
    (call.answer inner (.error error)).Valid engine payloads
      moving := by
  refine ⟨hKnown, ?_, ?_⟩
  · intro record retries hResult
    simp at hResult
  · intro hIndexed
    rw [Std.ExtTreeMap.contains_eq_isSome_getElem?,
      hGone] at hIndexed
    simp at hIndexed

/- A read that finds the payload. -/
theorem valid_afterRead_found
    (hKnown : call.task.id < engine.inner.nextId)
    {content payload : Bytes}
    {offset : Nat}
    (hAt : payloadAt content offset = some payload)
    (hPushed : payloads call.task.id = some payload)
    (inner : EngineState)
    (retry : Nat) :
    (call.afterRead inner retry
      (WalReader.frameResult
        (readFrame (content.drop offset)))).Valid engine
          payloads moving := by
  rcases frameResult_of_payloadAt hAt with
    ⟨record, hResult, hUser⟩
  rw [hResult, afterRead, hUser]
  exact valid_deliver hKnown hPushed inner

/- A read that finds no file, at the first try. -/
theorem valid_afterRead_missing
    (hKnown : call.task.id < engine.inner.nextId)
    (hMoved :
      ∀ found,
        engine.inner.dataIndex[call.task.id]? =
            some found →
          (ofLex found).1 = 1 ∨ (ofLex found).1 ∈ moving)
    (inner : EngineState) :
    (call.afterRead inner 0
      (.error IoError.fileNotFound)).Valid engine payloads
        moving := by
  have hRetry :
      IoError.fileNotFound.kind = .notFound ∧ 0 < 2 :=
    ⟨rfl, by decide⟩
  rw [afterRead, if_pos hRetry]
  exact ⟨hKnown, rfl, hMoved⟩

omit [Hasher] in
/- After a read a call does not read again at once. -/
theorem afterRead_stage_ne
    (call : PopCall)
    (inner : EngineState)
    (retry : Nat)
    (result : Except IoError (Option Record))
    (loc : Loc)
    (tries : Nat) :
    (call.afterRead inner retry result).stage ≠
      .reading loc tries := by
  unfold afterRead
  split
  · simp [deliver, answer]
  · simp [answer]
  · split
    · simp
    · simp [answer]

/- The sections of other threads keep a call valid. -/
theorem Valid.advances
    {system next : System}
    (hValid :
      call.Valid system.engine
        (lastPayload system.history) moving)
    (hAdvances : system.Advances next) :
    call.Valid next.engine (lastPayload next.history)
      moving := by
  rcases hValid with ⟨hKnown, hStage⟩
  have hEngine := hAdvances.engine
  refine ⟨UInt64.lt_of_lt_of_le hKnown hEngine.nextId_le, ?_⟩
  rw [hAdvances.pushed hKnown]
  split at hStage
  · next loc retry _ =>
      refine ⟨?_, hStage.retries, ?_⟩
      · rcases hStage.place with
          ⟨payload, hPushed, hAt⟩ | ⟨hLacks, hRetry⟩
        · rw [Disk.payloadAt_eq_some_iff] at hAt
          rcases hAt with ⟨content, hContent, hPayload⟩
          rcases hEngine.grows hContent with ⟨more, hMore⟩
          refine .inl ⟨payload, hPushed, ?_⟩
          rw [Disk.payloadAt_eq_some_iff]
          exact ⟨content ++ more, hMore,
            payloadAt_append hPayload more⟩
        · refine .inr ⟨⟨hLacks.above, ?_, ?_⟩, hRetry⟩
          · exact lt_of_lt_of_le hLacks.below
              hEngine.active_le
          · exact hEngine.missing hLacks.below
              hLacks.unlinked
      · intro found hFound
        exact hStage.indexed found
          (hEngine.indexed hKnown hFound)
  · refine ⟨hStage.1, ?_⟩
    intro found hFound
    exact hStage.2 found (hEngine.indexed hKnown hFound)
  · exact hStage

end PopCall

end Nesso

------------------------------------------------------------
-- Between the Swaps
------------------------------------------------------------

namespace Nesso

variable [Hasher]

namespace System

variable {system : System}

/- Every indexed location holds its payload. -/
theorem Sound.holds
    (hSystem : system.Sound)
    {id : UInt64}
    {loc : Loc}
    (hLoc :
      system.engine.inner.dataIndex[id]? = some loc) :
    system.engine.disk.HoldsPayload loc
      (lastPayload system.history id) := by
  rcases hSystem.serves with ⟨log, hEngine, _⟩
  rcases hEngine.reads.readAt_of_data hEngine.coherent hLoc
    with ⟨record, hRead, _, hPushed⟩
  rcases hEngine.coherent.readAt_cases (ofLex loc).1
    (ofLex loc).2 with
    ⟨hMissing, _⟩ | ⟨content, next, hResult, hContent⟩
  · simp [hMissing] at hRead
  · refine ⟨record.userPayload, hPushed, ?_⟩
    rw [Disk.payloadAt_eq_some_iff]
    simp only [hResult] at hRead
    refine ⟨content, hContent, ?_⟩
    rw [payloadAt, hRead]

/- A coherent handle cache may take the place of another. -/
theorem Sound.withReader
    (hSystem : system.Sound)
    {reader : WalReader}
    (hReader : reader.Coherent system.engine.disk) :
    ({ system with
      engine :=
        { system.engine with
          reader := reader } } : System).Sound := by
  rcases hSystem.serves with ⟨log, hEngine, hStage⟩
  exact
    ⟨⟨log, ⟨hEngine.tracks, hReader, hEngine.stored⟩,
        hStage⟩,
      hSystem.snapshot_known, hSystem.pushed_known⟩

omit [Hasher] in
theorem advances_withReader
    (system : System)
    (reader : WalReader) :
    system.Advances
      { system with
        engine :=
          { system.engine with reader := reader } } := by
  refine advances_of_events ?_ (List.append_nil _).symm
    (by simp)
  exact .of_fields_eq rfl rfl (fun _ => rfl) rfl

end System

namespace PopSystem

/- No compaction is between its rename and `clear_cache`. -/
structure Steady (pop : PopSystem) : Prop where
  system : pop.system.Sound
  calls :
    ∀ call ∈ pop.calls,
      call.Valid pop.system.engine
        (lastPayload pop.system.history) []

variable {pop next : PopSystem}

theorem unlinks_readAt
    {position : Nat}
    (hRead : pop.readAt position = some next) :
    next.unlinks = pop.unlinks := by
  unfold PopSystem.readAt at hRead
  split at hRead
  · split at hRead
    · rw [Option.some.injEq] at hRead
      rw [← hRead]
    · simp at hRead
  · simp at hRead

omit [Hasher] in
theorem unlinks_lookUp
    {position : Nat}
    (hLookUp : pop.lookUp position = some next) :
    next.unlinks = pop.unlinks := by
  unfold PopSystem.lookUp at hLookUp
  split at hLookUp
  · split at hLookUp
    · rw [Option.some.injEq] at hLookUp
      rw [← hLookUp]
    · simp at hLookUp
  · simp at hLookUp

theorem steady_start
    (maxSegmentSize : Option Nat)
    (cacheCapacity : Nat)
    (now : UInt64) :
    (start maxSegmentSize cacheCapacity now).Steady where
  system :=
    System.sound_start maxSegmentSize cacheCapacity now
  calls := by
    intro call hCall
    simp [start] at hCall

theorem Steady.run
    (hSteady : pop.Steady)
    {action : Action}
    (hWhole : action.isWhole = true)
    (hShort : action.ShortPush)
    {system : System}
    (hStep : pop.system.step action = some system) :
    ({ pop with system := system } : PopSystem).Steady where
  system := hSteady.system.step hShort hStep
  calls := by
    intro call hCall
    exact (hSteady.calls call hCall).advances
      (hSteady.system.advances hWhole hStep)

/- One call changes, the others stay valid. -/
theorem Steady.set
    (hSteady : pop.Steady)
    {reader : WalReader}
    (hReader : reader.Coherent pop.system.engine.disk)
    (position : Nat)
    {call : PopCall}
    (hCall :
      call.Valid pop.system.engine
        (lastPayload pop.system.history) []) :
    ({ pop with
      system :=
        { pop.system with
          engine :=
            { pop.system.engine with
              reader := reader } }
      calls := pop.calls.set position call } :
        PopSystem).Steady where
  system := hSteady.system.withReader hReader
  calls := by
    intro other hOther
    rcases List.mem_or_eq_of_mem_set hOther with
      hOld | hEq
    · exact (hSteady.calls other hOld).advances
        (pop.system.advances_withReader reader)
    · rw [hEq]
      exact hCall.advances
        (pop.system.advances_withReader reader)

/- Outside a swap a read finds the payload, or no file. -/
theorem Steady.readAt
    (hSteady : pop.Steady)
    {position : Nat}
    (hRead : pop.readAt position = some next) :
    next.Steady := by
  unfold PopSystem.readAt at hRead
  split at hRead
  · next call hCall =>
      have hMem := List.mem_of_getElem? hCall
      rcases hSteady.calls call hMem with ⟨hKnown, hStage⟩
      split at hRead
      · next loc retry hReading =>
          rw [hReading] at hStage
          rw [Option.some.injEq] at hRead
          rw [← hRead]
          rcases hSteady.system.serves with
            ⟨log, hEngine, _⟩
          apply hSteady.set
          · exact hEngine.coherent.readAt _ _
          · rcases hEngine.coherent.readAt_cases (ofLex loc).1
              (ofLex loc).2 with
              ⟨hMissing, hNone⟩ |
                ⟨content, reader, hFound, hContent⟩
            · -- The segment was compacted away.
              have hEmpty :
                  ∀ pushed,
                    ¬ pop.system.engine.disk.HoldsPayload loc
                      pushed := by
                rintro pushed ⟨payload, _, hAt⟩
                simp [Disk.payloadAt, hNone] at hAt
              rcases hStage.place with hHolds | ⟨_, rfl⟩
              · exact (hEmpty _ hHolds).elim
              · rw [hMissing]
                apply PopCall.valid_afterRead_missing hKnown
                intro found hIndex
                rcases hStage.indexed found hIndex with
                  rfl | hFirst
                · exact (hEmpty _
                    (hSteady.system.holds hIndex)).elim
                · exact .inl hFirst
            · rcases hStage.place with
                ⟨payload, hPushed, hAt⟩ | ⟨hLacks, _⟩
              · rw [Disk.payloadAt, hContent] at hAt
                rw [hFound]
                exact PopCall.valid_afterRead_found hKnown
                  hAt hPushed _ _
              · simp [hLacks.unlinked] at hContent
      · simp at hRead
  · simp at hRead

/- A second look-up finds the task in segment 1. -/
theorem Steady.lookUp
    (hSteady : pop.Steady)
    {position : Nat}
    (hLookUp : pop.lookUp position = some next) :
    next.Steady := by
  unfold PopSystem.lookUp at hLookUp
  split at hLookUp
  · next call hCall =>
      have hMem := List.mem_of_getElem? hCall
      rcases hSteady.calls call hMem with ⟨hKnown, hStage⟩
      split at hLookUp
      · next retry hSearching =>
          rw [hSearching] at hStage
          rcases hStage with ⟨rfl, hMoved⟩
          rw [Option.some.injEq] at hLookUp
          rw [← hLookUp]
          rcases hSteady.system.serves with
            ⟨log, hEngine, _⟩
          apply hSteady.set hEngine.coherent
          unfold PopCall.afterLookUp
          split
          · next loc hLoc =>
              have hFirst : (ofLex loc).1 = 1 := by
                simpa using hMoved loc hLoc
              refine ⟨hKnown, ?_, ?_, ?_⟩
              · exact .inl (hSteady.system.holds hLoc)
              · exact .inr ⟨rfl, hFirst⟩
              · intro found hFound
                rw [hLoc, Option.some.injEq] at hFound
                exact .inl hFound.symm
          · next hGone =>
              exact PopCall.valid_answer_error hKnown hGone _
      · simp at hLookUp
  · simp at hLookUp

end PopSystem

end Nesso

namespace Nesso

namespace PopSystem

variable [Hasher]
variable {pop : PopSystem}

/- The new call of a pop is valid. -/
theorem valid_ofTicket
    {before : System}
    (hBefore : before.Sound)
    {task : TaskRef}
    {rest : ReadyQueue}
    (hPop :
      before.engine.inner.readyQueue.pop =
        some (task, rest))
    {consumerId : UInt32}
    {now leaseTtlSecs : UInt64}
    {next : System}
    (hNext :
      next = before.popLocked consumerId now leaseTtlSecs)
    (hSound : next.Sound)
    (hAdvances : before.Advances next)
    {call : PopCall}
    (hCall :
      call ∈ PopCall.ofTicket task next.engine.inner
        (before.engine.popLocked none consumerId now
          leaseTtlSecs).1) :
    call.Valid next.engine (lastPayload next.history) [] := by
  rcases hBefore.serves with ⟨log, hEngine, _⟩
  have hKnown : task.id < before.engine.inner.nextId :=
    hEngine.stored.ready_known task
      ((ReadyQueue.tasks_pop_perm hPop).mem_iff.mpr
        (by simp))
  have hLater : task.id < next.engine.inner.nextId :=
    UInt64.lt_of_lt_of_le hKnown hAdvances.engine.nextId_le
  have hEngineEq :
      next.engine =
        (before.engine.popLocked none consumerId now
          leaseTtlSecs).2 := by
    rw [hNext]
    rfl
  rw [Engine.popLocked_none, hPop] at hCall hEngineEq
  dsimp only at hCall hEngineEq
  cases hData : before.engine.inner.dataIndex[task.id]? with
  | none =>
      simp only [hData, PopCall.ofTicket,
        List.mem_singleton] at hCall
      rw [hCall]
      apply PopCall.valid_answer_error hLater
      simp only [hEngineEq, hData]
      exact hData
  | some dataLoc =>
      have hLoc :
          next.engine.inner.dataIndex[task.id]? =
            some dataLoc := by
        simp only [hEngineEq, hData]
        exact hData
      simp only [hData, PopCall.ofTicket] at hCall
      split at hCall
      · next payload hCached =>
          rw [List.mem_singleton] at hCall
          rw [hCall]
          apply PopCall.valid_deliver hLater
          rw [hAdvances.pushed hKnown]
          exact (hEngine.stored.cached task.id payload
            hCached).2
      · rw [List.mem_singleton] at hCall
        rw [hCall]
        refine ⟨hLater, ?_, .inl rfl, ?_⟩
        · exact .inl (hSound.holds hLoc)
        · intro found hFound
          simp only [hLoc, Option.some.injEq] at hFound
          exact .inl hFound.symm

theorem Steady.popLocked
    (hSteady : pop.Steady)
    (consumerId : UInt32)
    (now leaseTtlSecs : UInt64) :
    (pop.popLocked consumerId now leaseTtlSecs).Steady := by
  have hSound :
      (pop.system.popLocked consumerId now
        leaseTtlSecs).Sound := by
    have hStep :
        pop.system.step
            (.popLocked consumerId now leaseTtlSecs) =
          some (pop.system.popLocked consumerId now
            leaseTtlSecs) := rfl
    have hShort :
        (Action.popLocked consumerId now
          leaseTtlSecs).ShortPush := trivial
    exact hSteady.system.step hShort hStep
  have hAdvances :=
    System.advances_popLocked hSteady.system.attached
      consumerId now leaseTtlSecs
  refine ⟨hSound, ?_⟩
  intro call hCall
  have hOld :
      ∀ other ∈ pop.calls,
        other.Valid
          (pop.system.popLocked consumerId now
            leaseTtlSecs).engine
          (lastPayload
            (pop.system.popLocked consumerId now
              leaseTtlSecs).history) [] := by
    intro other hOther
    exact (hSteady.calls other hOther).advances hAdvances
  simp only [PopSystem.popLocked] at hCall
  split at hCall
  · exact hOld call hCall
  · next task rest hPop =>
      rcases List.mem_append.mp hCall with hMem | hNew
      · exact hOld call hMem
      · exact valid_ofTicket hSteady.system hPop rfl hSound
          hAdvances hNew

end PopSystem

end Nesso

------------------------------------------------------------
-- During a Swap
------------------------------------------------------------

namespace Nesso

variable [Hasher]

omit [Hasher] in
/-
  The files that a reader may have open for a segment while
  `disk` is swapped: the old one, and for segment 1 also the
  compacted one.
-/
def Disk.Linked
    (disk : Disk)
    (segmentId inode : Nat) : Prop :=
  disk.lookup (.wal segmentId) = some inode ∨
    (segmentId = 1 ∧ disk.lookup .compacting = some inode)

namespace PopSystem

/-
  Phase 2 holds the lock and has yet to unlink `names`.  The
  state under the lock is the one `before` the swap.
-/
structure Swapping
    (pop : PopSystem)
    (before : System)
    (closedSegments : List Nat)
    (newOffsets : Std.ExtTreeMap UInt64 Nat)
    (names : List FileName) : Prop where
  sound : before.Sound
  written :
    before.compaction = .written closedSegments newOffsets
  same :
    pop.system =
      { before with
        engine :=
          { before.engine with
            disk := pop.system.engine.disk
            reader := pop.system.engine.reader } }
  temp : before.engine.disk.contains .compacting = true
  rest :
    pop.system.engine.disk.execAll
        (names.map (fun name => .remove name)) =
      before.engine.disk.execAll
        (Wal.phase2Steps before.engine.disk closedSegments)
  removed :
    ∀ segmentId, .wal segmentId ∈ names →
      segmentId ∈ closedSegments ∧ 1 < segmentId
  cached :
    ∀ entry ∈ pop.system.engine.reader.readCache,
      before.engine.disk.Linked entry.1 entry.2
  named :
    ∀ segmentId inode,
      pop.system.engine.disk.lookup (.wal segmentId) =
          some inode →
        before.engine.disk.Linked segmentId inode
  kept :
    ∀ segmentId,
      pop.system.engine.disk.lookup (.wal segmentId) =
          none →
        segmentId ≠ 1 ∧
          (segmentId ∈ closedSegments ∨
            before.engine.disk.read (.wal segmentId) = none)
  contents :
    ∀ segmentId inode,
      before.engine.disk.Linked segmentId inode →
        pop.system.engine.disk.contentOf inode =
          before.engine.disk.contentOf inode
  calls :
    ∀ call ∈ pop.calls,
      call.Valid before.engine (lastPayload before.history)
        closedSegments
  first :
    ∀ call ∈ pop.calls, ∀ offset retry,
      call.stage = .reading (toLex (1, offset)) retry →
        before.engine.disk.payloadAt .compacting offset =
          lastPayload before.history call.task.id

variable {pop next : PopSystem} {before : System}
variable {closedSegments : List Nat}
variable {newOffsets : Std.ExtTreeMap UInt64 Nat}
variable {names : List FileName}

/- What a call that reads during the swap becomes. -/
theorem Swapping.valid_afterRead
    (hSwap :
      pop.Swapping before closedSegments newOffsets names)
    {call : PopCall}
    (hCall : call ∈ pop.calls)
    {loc : Loc}
    {retry : Nat}
    (hReading : call.stage = .reading loc retry) :
    (call.afterRead before.engine.inner retry
      (pop.system.engine.reader.readAt
        pop.system.engine.disk (ofLex loc).1
        (ofLex loc).2).1).Valid before.engine
          (lastPayload before.history) closedSegments := by
  have hFirst := hSwap.first call hCall
  rcases hSwap.calls call hCall with ⟨hKnown, hStage⟩
  rw [hReading] at hStage hFirst
  have hReadable :
      ∀ pushed,
        before.engine.disk.HoldsPayload loc pushed →
          before.engine.disk.read (.wal (ofLex loc).1) ≠
            none := by
    rintro pushed ⟨payload, _, hAt⟩ hNone
    simp [Disk.payloadAt, hNone] at hAt
  rcases WalReader.readAt_cases
    (before.engine.disk.Linked) hSwap.cached (ofLex loc).1
    (ofLex loc).2 (hSwap.named _) with
    ⟨hMissing, hLookup⟩ |
      ⟨inode, reader, hFound, hLinked, _⟩
  · -- The old segment is unlinked already.
    rcases hSwap.kept _ hLookup with ⟨hNe, hClosed⟩
    have hRetry : retry = 0 := by
      rcases hStage.retries with hZero | ⟨_, hOne⟩
      · exact hZero
      · exact (hNe hOne).elim
    rw [hMissing, hRetry]
    apply PopCall.valid_afterRead_missing hKnown
    intro found hIndex
    rcases hStage.indexed found hIndex with rfl | hOne
    · rcases hClosed with hMem | hNone
      · exact .inr hMem
      · exact (hReadable _ (hSwap.sound.holds hIndex)
          hNone).elim
    · exact .inl hOne
  · rw [hFound, hSwap.contents _ _ hLinked]
    rcases hStage.place with
      ⟨payload, hPushed, hAt⟩ | ⟨hLacks, _⟩
    · rcases hLinked with hOld | ⟨hOne, hNew⟩
      · rw [Disk.payloadAt, FileSystem.read, hOld] at hAt
        exact PopCall.valid_afterRead_found hKnown hAt
          hPushed _ _
      · -- The compacted file has the payload here too.
        have hLoc : loc = toLex (1, (ofLex loc).2) := by
          rw [← hOne]
          rfl
        have hSame :=
          hFirst (ofLex loc).2 retry (by rw [← hLoc])
        rw [hPushed, Disk.payloadAt, FileSystem.read, hNew]
          at hSame
        exact PopCall.valid_afterRead_found hKnown hSame
          hPushed _ _
    · rcases hLinked with hOld | ⟨hOne, _⟩
      · have hUnlinked := hLacks.unlinked
        simp [FileSystem.read, hOld] at hUnlinked
      · have hAbove := hLacks.above
        omega

end PopSystem

end Nesso

namespace Nesso

namespace PopSystem

variable [Hasher]
variable {pop next : PopSystem} {before : System}
variable {closedSegments : List Nat}
variable {newOffsets : Std.ExtTreeMap UInt64 Nat}
variable {names : List FileName}

/- During a swap a read opens an old or the new file. -/
theorem Swapping.readAt
    (hSwap :
      pop.Swapping before closedSegments newOffsets names)
    {position : Nat}
    (hRead : pop.readAt position = some next) :
    next.Swapping before closedSegments newOffsets
      names := by
  unfold PopSystem.readAt at hRead
  split at hRead
  · next call hCall =>
      have hMem := List.mem_of_getElem? hCall
      split at hRead
      · next loc retry hReading =>
          rw [Option.some.injEq] at hRead
          rw [← hRead]
          have hInner :
              pop.system.engine.inner =
                before.engine.inner := by
            rw [hSwap.same]
          have hValid :=
            hSwap.valid_afterRead hMem hReading
          refine ⟨hSwap.sound, hSwap.written, ?_,
            hSwap.temp, hSwap.rest, hSwap.removed, ?_,
            hSwap.named, hSwap.kept, hSwap.contents, ?_, ?_⟩
          · dsimp only
            rw [hSwap.same]
          · rcases WalReader.readAt_cases
              (before.engine.disk.Linked) hSwap.cached
              (ofLex loc).1 (ofLex loc).2 (hSwap.named _)
              with
              ⟨hMissing, _⟩ |
                ⟨inode, reader, hFound, _, hHandles⟩
            · dsimp only
              rw [hMissing]
              exact hSwap.cached
            · dsimp only
              rw [hFound]
              exact hHandles
          · intro other hOther
            rcases List.mem_or_eq_of_mem_set hOther with
              hOld | hEq
            · exact hSwap.calls other hOld
            · rw [hEq, hInner]
              exact hValid
          · intro other hOther offset tries hStage
            rcases List.mem_or_eq_of_mem_set hOther with
              hOld | hEq
            · exact hSwap.first other hOld offset tries
                hStage
            · rw [hEq] at hStage
              exact (PopCall.afterRead_stage_ne _ _ _ _ _ _
                hStage).elim
      · simp at hRead
  · simp at hRead

/- Unlinking hides old files but keeps open handles. -/
theorem Swapping.unlink
    (hSwap :
      pop.Swapping before closedSegments newOffsets names)
    (hNames : pop.unlinks = some names)
    (hUnlink : pop.unlink = some next) :
    ∃ remaining,
      next.Swapping before closedSegments newOffsets
          remaining ∧
        next.unlinks = some remaining := by
  unfold PopSystem.unlink at hUnlink
  rw [hNames] at hUnlink
  split at hUnlink
  · next name remaining hEq =>
      rw [Option.some.injEq] at hEq hUnlink
      rw [← hUnlink]
      refine ⟨remaining, ⟨hSwap.sound, hSwap.written, ?_,
        hSwap.temp, ?_, ?_, hSwap.cached, ?_, ?_, ?_,
        hSwap.calls, hSwap.first⟩, rfl⟩
      · dsimp only
        rw [hSwap.same]
      · rw [← hSwap.rest, hEq, List.map_cons,
          FileSystem.execAll_cons]
        rfl
      · intro segmentId hMem
        apply hSwap.removed
        rw [hEq]
        exact List.mem_cons_of_mem _ hMem
      · intro segmentId inode hLookup
        rw [FileSystem.lookup_remove] at hLookup
        split at hLookup
        · simp at hLookup
        · exact hSwap.named segmentId inode hLookup
      · intro segmentId hLookup
        rw [FileSystem.lookup_remove] at hLookup
        split at hLookup
        · next hName =>
            have hRemoved :=
              hSwap.removed segmentId (by rw [hEq, hName]; simp)
            exact ⟨by omega, .inl hRemoved.1⟩
        · exact hSwap.kept segmentId hLookup
      · exact hSwap.contents
  · simp at hUnlink

end PopSystem

end Nesso

------------------------------------------------------------
-- The Ends of a Swap
------------------------------------------------------------

namespace Nesso

/- Writing the plan touches no other file. -/
theorem Wal.not_target_prepareSteps
    {disk : Disk}
    {closedSegments : List Nat}
    {name : FileName}
    (hName : name ≠ .compactionPlan)
    {step : DiskStep}
    (hStep : step ∈ prepareSteps disk closedSegments) :
    name ∉ step.targets := by
  unfold prepareSteps at hStep
  split at hStep
  · simp at hStep
  · intro hTarget
    exact hName (mem_planSteps_targets hStep hTarget)

theorem Wal.lookup_prepareSteps
    {disk : Disk}
    {closedSegments : List Nat}
    {name : FileName}
    (hName : name ≠ .compactionPlan) :
    (disk.execAll
        (prepareSteps disk closedSegments)).lookup name =
      disk.lookup name := by
  apply FileSystem.lookup_execAll_of_not_target
  intro step hStep
  exact not_target_prepareSteps hName hStep

theorem Wal.contentOf_prepareSteps
    {disk : Disk}
    {closedSegments : List Nat}
    {name : FileName}
    (hName : name ≠ .compactionPlan)
    {inode : Nat}
    (hLookup : disk.lookup name = some inode) :
    (disk.execAll
        (prepareSteps disk closedSegments)).contentOf inode =
      disk.contentOf inode := by
  have hRead :
      (disk.execAll
          (prepareSteps disk closedSegments)).read name =
        disk.read name := by
    apply FileSystem.read_execAll_of_not_target
    intro step hStep
    exact not_target_prepareSteps hName hStep
  simpa [FileSystem.read, lookup_prepareSteps hName,
    hLookup] using hRead

namespace PopSystem

variable [Hasher]
variable {pop next : PopSystem}

/- The rename starts a swap. -/
theorem Steady.rename
    (hSteady : pop.Steady)
    (hKeeps : pop.KeepsReads .rename)
    (hRename : pop.rename = some next) :
    ∃ closedSegments newOffsets names,
      next.Swapping pop.system closedSegments newOffsets
          names ∧
        next.unlinks = some names := by
  unfold PopSystem.rename at hRename
  split at hRename
  · next closedSegments newOffsets hWritten =>
      rcases hSteady.system.serves with
        ⟨log, hEngine, hStage⟩
      rw [hWritten] at hStage
      rcases hStage with
        ⟨closed, rest, hClosed, _, rfl, _, hTemp⟩
      rcases FileSystem.read_eq_some_iff.mp hTemp with
        ⟨fresh, hFresh, _⟩
      have hContains :
          pop.system.engine.disk.contains .compacting =
            true := by
        rw [Disk.contains, hFresh]
        rfl
      have hSource :
          (pop.system.engine.disk.execAll
              (Wal.prepareSteps pop.system.engine.disk
                (closed.map Prod.fst))).lookup .compacting =
            some fresh := by
        rw [Wal.lookup_prepareSteps (by simp)]
        exact hFresh
      rw [if_pos hContains, Option.some.injEq] at hRename
      rw [← hRename]
      refine ⟨_, newOffsets, _, ⟨hSteady.system, hWritten,
        rfl, hContains, ?_, ?_, ?_, ?_, ?_, ?_, ?_, ?_⟩, rfl⟩
      · rw [Wal.phase2Steps_eq, FileSystem.execAll_append,
          FileSystem.execAll_cons]
        rfl
      · intro segmentId hMem
        simp only [Wal.unlinkedNames, List.mem_append,
          List.mem_map, List.mem_filter, decide_eq_true_eq,
          FileName.wal.injEq, List.mem_cons, reduceCtorEq,
          List.not_mem_nil, or_false] at hMem
        rcases hMem with ⟨other, ⟨hMem, hAbove⟩, rfl⟩
        exact ⟨List.mem_map.mpr hMem, hAbove⟩
      · intro entry hEntry
        exact .inl (hEngine.coherent entry hEntry)
      · intro segmentId inode hLookup
        rw [FileSystem.lookup_rename hSource] at hLookup
        split at hLookup
        · next hOne =>
            rw [FileName.wal.injEq] at hOne
            rw [Option.some.injEq] at hLookup
            rw [← hLookup]
            exact .inr ⟨hOne, hFresh⟩
        · rw [if_neg (by simp),
            Wal.lookup_prepareSteps (by simp)] at hLookup
          exact .inl hLookup
      · intro segmentId hLookup
        rw [FileSystem.lookup_rename hSource] at hLookup
        split at hLookup
        · simp at hLookup
        · next hOne =>
            rw [if_neg (by simp),
              Wal.lookup_prepareSteps (by simp)] at hLookup
            refine ⟨by simpa using hOne, .inr ?_⟩
            simp only [FileSystem.read, hLookup,
              Option.map_none]
      · intro segmentId inode hLinked
        dsimp only
        rw [FileSystem.contentOf_rename]
        rcases hLinked with hOld | ⟨_, hNew⟩
        · exact Wal.contentOf_prepareSteps (by simp) hOld
        · exact Wal.contentOf_prepareSteps (by simp) hNew
      · intro call hCall
        rcases hSteady.calls call hCall with
          ⟨hKnown, hValid⟩
        refine ⟨hKnown, ?_⟩
        split at hValid
        · exact hValid
        · refine ⟨hValid.1, ?_⟩
          intro found hFound
          exact .inl (by simpa using hValid.2 found hFound)
        · exact hValid
      · intro call hCall offset retry hReading
        rcases hSteady.calls call hCall with ⟨_, hValid⟩
        rw [hReading] at hValid
        rw [hKeeps call hCall offset retry hReading]
        rcases hValid.place with
          ⟨payload, hPushed, hAt⟩ | ⟨hLacks, _⟩
        · rw [hPushed]
          exact hAt
        · exact absurd hLacks.above (by simp)
  · simp at hRename

end PopSystem

end Nesso

namespace Nesso

namespace PopSystem

variable [Hasher]
variable {pop next : PopSystem} {before : System}
variable {closedSegments : List Nat}
variable {newOffsets : Std.ExtTreeMap UInt64 Nat}

/- Compacted segments have numbers below the active one. -/
theorem Swapping.closed_bounds
    {names : List FileName}
    (hSwap :
      pop.Swapping before closedSegments newOffsets names)
    {segmentId : Nat}
    (hMem : segmentId ∈ closedSegments) :
    1 ≤ segmentId ∧
      segmentId <
        before.engine.inner.wal.activeSegmentId := by
  rcases hSwap.sound.serves with ⟨log, hEngine, hStage⟩
  rw [hSwap.written] at hStage
  rcases hStage with ⟨closed, rest, hClosed, _, rfl, _, _⟩
  rcases List.mem_map.mp hMem with ⟨segment, hSegment, rfl⟩
  have hSegments := hEngine.tracks.segmentsOn
  have hLog : segment ∈ log.closed := by
    rw [hClosed]
    exact List.mem_append_left _ hSegment
  constructor
  · exact hSegments.one_le segment
      (List.mem_append_left _ hLog)
  · rw [hEngine.tracks.activeSegmentId_eq]
    exact hSegments.closed_lt_activeId hLog

/- The segments when everything is unlinked. -/
theorem Swapping.read_eq
    (hSwap :
      pop.Swapping before closedSegments newOffsets [])
    (segmentId : Nat) :
    pop.system.engine.disk.read (.wal segmentId) =
      if segmentId = 1 then
        before.engine.disk.read .compacting
      else if segmentId ∈ closedSegments then none
      else before.engine.disk.read (.wal segmentId) := by
  have hTemp := hSwap.temp
  rw [Disk.contains_eq, Option.isSome_iff_exists] at hTemp
  rcases hTemp with ⟨content, hContent⟩
  have hRest := hSwap.rest
  rw [List.map_nil, FileSystem.execAll_nil] at hRest
  rw [hRest, Wal.read_phase2 hContent, hContent]
  by_cases hOne : segmentId = 1
  · simp [hOne, Wal.unlinkedNames]
  · by_cases hMem : segmentId ∈ closedSegments
    · have hAbove : 1 < segmentId := by
        have hLe := (hSwap.closed_bounds hMem).1
        omega
      simp [hOne, hMem, hAbove, Wal.unlinkedNames]
    · simp [hOne, hMem, Wal.unlinkedNames]

/- The end of a swap is the end of phase 2. -/
theorem Swapping.step_clearCache
    (hSwap :
      pop.Swapping before closedSegments newOffsets [])
    (hClear : pop.clearCache = some next) :
    before.step .compactPhase2 = some next.system ∧
      next.system.engine.disk = pop.system.engine.disk ∧
      next.system.engine.inner =
        before.engine.inner.remap closedSegments
          newOffsets ∧
      next.system.history = before.history ∧
      next.calls = pop.calls ∧
      next.unlinks = none := by
  have hRest := hSwap.rest
  rw [List.map_nil, FileSystem.execAll_nil] at hRest
  have hCompaction :
      pop.system.compaction =
        .written closedSegments newOffsets := by
    rw [hSwap.same]
    exact hSwap.written
  unfold PopSystem.clearCache at hClear
  rw [hCompaction] at hClear
  split at hClear
  · next found offsets _ hEq =>
      rw [CompactionStage.written.injEq] at hEq
      rcases hEq with ⟨rfl, rfl⟩
      rw [Option.some.injEq] at hClear
      have hInner :
          pop.system.engine.inner = before.engine.inner := by
        rw [hSwap.same]
      have hHistory : pop.system.history = before.history := by
        rw [hSwap.same]
      rw [← hClear]
      refine ⟨?_, rfl, ?_, hHistory, rfl, rfl⟩
      · simp only [System.step, System.compactPhase2,
          hSwap.written, Engine.compactPhase2,
          Wal.executeCompactionPhase2, hSwap.temp, if_true,
          ← hRest, hInner]
        rw [hSwap.same]
        rfl
      · dsimp only
        rw [hInner]
  · simp at hClear

end PopSystem

end Nesso

namespace Nesso

namespace PopSystem

variable [Hasher]
variable {pop next : PopSystem} {before : System}
variable {closedSegments : List Nat}
variable {newOffsets : Std.ExtTreeMap UInt64 Nat}

/- A task of a compacted segment is remapped to segment 1. -/
theorem Swapping.remapped
    (hSwap :
      pop.Swapping before closedSegments newOffsets [])
    (hSound : next.system.Sound)
    (hDisk :
      next.system.engine.disk = pop.system.engine.disk)
    (hInner :
      next.system.engine.inner =
        before.engine.inner.remap closedSegments newOffsets)
    {id : UInt64}
    {found moved : Loc}
    (hFound :
      before.engine.inner.dataIndex[id]? = some found)
    (hMoved :
      next.system.engine.inner.dataIndex[id]? = some moved)
    (hFrom :
      (ofLex found).1 = 1 ∨
        (ofLex found).1 ∈ closedSegments) :
    (ofLex moved).1 = 1 := by
  have hRemap := hMoved
  rw [hInner, EngineState.getElem?_dataIndex_remap, hFound,
    Option.map_some, Option.some.injEq] at hRemap
  by_cases hMem : (ofLex found).1 ∈ closedSegments
  · cases hOffset : newOffsets[id]? with
    | some offset =>
        rw [hOffset, remapLoc_of_mem hMem] at hRemap
        rw [← hRemap]
        rfl
    | none =>
        -- A task left behind would have lost its payload.
        have hStays : moved = found := by
          rw [← hRemap, hOffset, remapLoc, if_pos hMem]
        by_contra hOther
        rcases hSound.holds hMoved with ⟨payload, _, hAt⟩
        rw [hStays] at hOther
        have hNone :
            next.system.engine.disk.read
              (.wal (ofLex found).1) = none := by
          rw [hDisk, hSwap.read_eq, if_neg hOther,
            if_pos hMem]
        rw [hStays, Disk.payloadAt, hNone] at hAt
        simp at hAt
  · rw [remapLoc_of_not_mem hMem] at hRemap
    rw [← hRemap]
    exact hFrom.resolve_right hMem

/- What a call relies on after a swap. -/
theorem Swapping.canRead
    (hSwap :
      pop.Swapping before closedSegments newOffsets [])
    (hSound : next.system.Sound)
    (hDisk :
      next.system.engine.disk = pop.system.engine.disk)
    (hInner :
      next.system.engine.inner =
        before.engine.inner.remap closedSegments newOffsets)
    {call : PopCall}
    (hCall : call ∈ pop.calls)
    {loc : Loc}
    {retry : Nat}
    (hReading : call.stage = .reading loc retry)
    (hOld :
      before.engine.CanRead
        (lastPayload before.history call.task.id)
        call.task.id loc retry) :
    next.system.engine.CanRead
      (lastPayload before.history call.task.id)
      call.task.id loc retry := by
  have hRead := hSwap.read_eq (ofLex loc).1
  rw [← hDisk] at hRead
  have hActive :
      next.system.engine.inner.wal.activeSegmentId =
        before.engine.inner.wal.activeSegmentId := by
    rw [hInner, EngineState.remap_eq]
  refine ⟨?_, hOld.retries, ?_⟩
  · by_cases hOne : (ofLex loc).1 = 1
    · -- Segment 1 is the compacted file.
      have hLoc : loc = toLex (1, (ofLex loc).2) := by
        rw [← hOne]
        rfl
      have hSame :=
        hSwap.first call hCall (ofLex loc).2 retry
          (by rw [← hLoc]; exact hReading)
      rcases hOld.place with
        ⟨payload, hPushed, _⟩ | ⟨hLacks, _⟩
      · refine .inl ⟨payload, hPushed, ?_⟩
        rw [hPushed] at hSame
        rw [Disk.payloadAt, hRead, if_pos hOne]
        exact hSame
      · have hAbove := hLacks.above
        omega
    · rw [if_neg hOne] at hRead
      by_cases hMem : (ofLex loc).1 ∈ closedSegments
      · -- The segment has been unlinked.
        rw [if_pos hMem] at hRead
        have hBounds := hSwap.closed_bounds hMem
        have hRetry : retry = 0 := by
          rcases hOld.retries with hZero | ⟨_, hFirst⟩
          · exact hZero
          · exact (hOne hFirst).elim
        refine .inr ⟨⟨by omega, ?_, hRead⟩, hRetry⟩
        rw [hActive]
        exact hBounds.2
      · rw [if_neg hMem] at hRead
        rcases hOld.place with
          ⟨payload, hPushed, hAt⟩ | ⟨hLacks, hRetry⟩
        · refine .inl ⟨payload, hPushed, ?_⟩
          rw [Disk.payloadAt, hRead]
          exact hAt
        · refine .inr ⟨⟨hLacks.above, ?_, ?_⟩, hRetry⟩
          · rw [hActive]
            exact hLacks.below
          · rw [hRead]
            exact hLacks.unlinked
  · intro moved hMoved
    have hRemap := hMoved
    rw [hInner, EngineState.getElem?_dataIndex_remap,
      Option.map_eq_some_iff] at hRemap
    rcases hRemap with ⟨found, hFound, hEq⟩
    rcases hOld.indexed found hFound with rfl | hFirst
    · by_cases hMem : (ofLex found).1 ∈ closedSegments
      · exact .inr (hSwap.remapped hSound hDisk hInner hFound
          hMoved (.inr hMem))
      · rw [remapLoc_of_not_mem hMem] at hEq
        exact .inl hEq.symm
    · exact .inr (hSwap.remapped hSound hDisk hInner hFound
        hMoved (.inl hFirst))

/- Clearing the handle cache ends the swap. -/
theorem Swapping.clearCache
    (hSwap :
      pop.Swapping before closedSegments newOffsets [])
    (hClear : pop.clearCache = some next) :
    next.Steady ∧ next.unlinks = none := by
  rcases hSwap.step_clearCache hClear with
    ⟨hStep, hDisk, hInner, hHistory, hCalls, hUnlinks⟩
  have hShort : Action.compactPhase2.ShortPush := trivial
  have hSound := hSwap.sound.step hShort hStep
  refine ⟨⟨hSound, ?_⟩, hUnlinks⟩
  intro call hCall
  rw [hCalls] at hCall
  rcases hSwap.calls call hCall with ⟨hKnown, hStage⟩
  rw [hHistory]
  refine ⟨?_, ?_⟩
  · rw [hInner, EngineState.remap_eq]
    exact hKnown
  · split at hStage
    · next loc retry hReading =>
        exact hSwap.canRead hSound hDisk hInner hCall
          hReading hStage
    · refine ⟨hStage.1, ?_⟩
      intro moved hMoved
      have hRemap := hMoved
      rw [hInner, EngineState.getElem?_dataIndex_remap,
        Option.map_eq_some_iff] at hRemap
      rcases hRemap with ⟨found, hFound, _⟩
      exact .inl (hSwap.remapped hSound hDisk hInner hFound
        hMoved (hStage.2 found hFound))
    · exact hStage

end PopSystem

end Nesso

------------------------------------------------------------
-- Runs
------------------------------------------------------------

namespace Nesso

namespace PopSystem

variable [Hasher]
variable {pop next : PopSystem}

/- Steady, or in the middle of a swap. -/
def Sound (pop : PopSystem) : Prop :=
  (pop.Steady ∧ pop.unlinks = none) ∨
    ∃ before closedSegments newOffsets names,
      pop.Swapping before closedSegments newOffsets names ∧
        pop.unlinks = some names

theorem Sound.served
    (hSound : pop.Sound) :
    pop.Served := by
  intro call hCall result indexed hReturned
  rcases hSound with
    ⟨hSteady, _⟩ | ⟨before, closed, offsets, names, hSwap, _⟩
  · rcases hSteady.calls call hCall with ⟨_, hStage⟩
    rw [hReturned] at hStage
    exact hStage
  · rcases hSwap.calls call hCall with ⟨_, hStage⟩
    rw [hReturned] at hStage
    rw [hSwap.same]
    exact hStage

/- The steps outside a swap. -/
theorem Steady.step
    (hSteady : pop.Steady)
    (hNone : pop.unlinks = none)
    {action : PopAction}
    (hKeeps : pop.KeepsReads action)
    (hStep : pop.step action = some next) :
    next.Sound := by
  have hFree : pop.locked = false := by
    rw [locked, hNone]
    rfl
  cases action with
  | run action =>
      simp only [PopSystem.step, hFree] at hStep
      split at hStep
      · simp at hStep
      · next hWhole =>
          rw [Option.map_eq_some_iff] at hStep
          rcases hStep with ⟨system, hStep, rfl⟩
          have hAction : action.isWhole = true := by
            simpa using hWhole
          exact .inl ⟨hSteady.run hAction hKeeps hStep, hNone⟩
  | popLocked consumerId now leaseTtlSecs =>
      simp only [PopSystem.step, hFree, Bool.false_eq_true,
        if_false, Option.some.injEq] at hStep
      rw [← hStep]
      exact .inl
        ⟨hSteady.popLocked consumerId now leaseTtlSecs, hNone⟩
  | readAt position =>
      refine .inl ⟨hSteady.readAt hStep, ?_⟩
      exact (unlinks_readAt hStep).trans hNone
  | lookUp position =>
      simp only [PopSystem.step, hFree, Bool.false_eq_true,
        if_false] at hStep
      refine .inl ⟨hSteady.lookUp hStep, ?_⟩
      exact (unlinks_lookUp hStep).trans hNone
  | rename =>
      simp only [PopSystem.step, hFree, Bool.false_eq_true,
        if_false] at hStep
      exact .inr ⟨_, hSteady.rename hKeeps hStep⟩
  | unlink =>
      simp only [PopSystem.step, PopSystem.unlink, hNone]
        at hStep
      simp at hStep
  | clearCache =>
      simp only [PopSystem.step, PopSystem.clearCache, hNone]
        at hStep
      simp at hStep

/- The steps of a swap, and the reads beside them. -/
theorem Swapping.step
    {before : System}
    {closedSegments : List Nat}
    {newOffsets : Std.ExtTreeMap UInt64 Nat}
    {names : List FileName}
    (hSwap :
      pop.Swapping before closedSegments newOffsets names)
    (hNames : pop.unlinks = some names)
    {action : PopAction}
    (hStep : pop.step action = some next) :
    next.Sound := by
  have hLocked : pop.locked = true := by
    rw [locked, hNames]
    rfl
  cases action with
  | run action => simp [PopSystem.step, hLocked] at hStep
  | popLocked consumerId now leaseTtlSecs =>
      simp [PopSystem.step, hLocked] at hStep
  | readAt position =>
      exact .inr ⟨_, _, _, _, hSwap.readAt hStep,
        (unlinks_readAt hStep).trans hNames⟩
  | lookUp position =>
      simp [PopSystem.step, hLocked] at hStep
  | rename => simp [PopSystem.step, hLocked] at hStep
  | unlink =>
      rcases hSwap.unlink hNames hStep with
        ⟨remaining, hNext, hRemaining⟩
      exact .inr ⟨_, _, _, _, hNext, hRemaining⟩
  | clearCache =>
      have hEmpty : names = [] := by
        simp only [PopSystem.step, PopSystem.clearCache,
          hNames] at hStep
        split at hStep
        · next hEq _ =>
            rw [Option.some.injEq] at hEq
            exact hEq
        · simp at hStep
      rw [hEmpty] at hSwap
      exact .inl (hSwap.clearCache hStep)

end PopSystem

/-
  In every run whose renames keep the payloads that calls are
  about to read, every call that returns is answered with the
  pushed payload, and only calls for tasks that are no longer
  in the data index fail.
-/
theorem popRun_served [Hasher]
    {maxSegmentSize : Option Nat}
    {cacheCapacity : Nat}
    {start : UInt64}
    {actions : List PopAction}
    {pop : PopSystem}
    (hRun :
      Transition.Run PopSystem.step PopSystem.KeepsReads
        (.start maxSegmentSize cacheCapacity start) actions
        pop) :
    pop.Served := by
  have hSound : pop.Sound := by
    apply hRun.invariant
    · exact .inl
        ⟨PopSystem.steady_start maxSegmentSize cacheCapacity
          start, rfl⟩
    · intro state next action hState hKeeps hStep
      rcases hState with
        ⟨hSteady, hNone⟩ |
          ⟨before, closed, offsets, names, hSwap, hNames⟩
      · exact hSteady.step hNone hKeeps hStep
      · exact hSwap.step hNames hStep
  exact hSound.served

end Nesso

------------------------------------------------------------
-- Reads Beside a Compaction
------------------------------------------------------------

namespace Nesso

/- The condition as a test. -/
def PopSystem.keepsReads [Hasher]
    (pop : PopSystem) : PopAction → Bool
| .run (.push payload _) =>
    decide (payload.length ≤ maxUserPayloadSize)
| .rename =>
    pop.calls.all (fun call =>
      match call.stage with
      | .reading loc _ =>
          decide
            ((ofLex loc).1 = 1 →
              pop.system.engine.disk.payloadAt .compacting
                  (ofLex loc).2 =
                pop.system.engine.disk.payloadAt (.wal 1)
                  (ofLex loc).2)
      | _ => true)
| _ => true

theorem PopSystem.keepsReads_of_test [Hasher]
    (pop : PopSystem)
    (action : PopAction)
    (hTest : pop.keepsReads action = true) :
    pop.KeepsReads action := by
  cases action with
  | run action =>
      cases action with
      | push payload priority =>
          simpa [keepsReads, KeepsReads, Action.ShortPush]
            using hTest
      | _ => trivial
  | rename =>
      intro call hCall offset retry hReading
      simp only [keepsReads, List.all_eq_true] at hTest
      have hCallTest := hTest call hCall
      rw [hReading] at hCallTest
      exact of_decide_eq_true hCallTest rfl
  | _ => trivial

/- The payload that a call has returned. -/
def PopCall.payload? (call : PopCall) : Option Bytes :=
  match call.stage with
  | .returned (.ok (record, _)) _ => some record.payload
  | _ => none

/-
  The segment of task 2 is unlinked before the call for task
  2 reads it.
-/
def readOfUnlinkedSegment : List PopAction :=
  [.run (.push [1] 5), .run (.push [2] 5),
    .run (.push [3] 5), .popLocked 7 10 100,
    .popLocked 7 10 100, .run .compactPlan,
    .run .compactPhase1, .rename, .unlink, .readAt 1,
    .unlink, .unlink, .unlink, .unlink, .clearCache,
    .lookUp 1, .readAt 1, .readAt 0]

set_option maxRecDepth 100000 in
theorem popRun_served_unlinkedSegment :
    ∃ pop,
      Transition.Run PopSystem.step PopSystem.KeepsReads
          (.start (some 20) 1 0) readOfUnlinkedSegment pop ∧
        pop.calls.map PopCall.payload? =
          [some [1], some [2]] ∧
        pop.Served := by
  have hEnd :
      (Transition.execute
        (Transition.checkedStep PopSystem.step
          PopSystem.keepsReads)
        readOfUnlinkedSegment (.start (some 20) 1 0)).any
          (fun pop =>
            pop.calls.map PopCall.payload? =
              [some [1], some [2]]) = true := by
    decide +kernel
  rcases Transition.exists_run_of_checked
    PopSystem.keepsReads_of_test hEnd with
    ⟨pop, hRun, hPayloads⟩
  exact ⟨pop, hRun, of_decide_eq_true hPayloads,
    popRun_served hRun⟩

/-
  Task 1 is acked, so that the compaction moves task 2 to the
  front of segment 1 and task 3 to the old place of task 2.
-/
def readOfMovedRecord : List PopAction :=
  [.run (.push [1] 5), .run (.push [2] 5),
    .run (.push [3] 5), .popLocked 7 10 100, .readAt 0,
    .run (.ack 1 7), .popLocked 7 10 100,
    .run .compactPlan, .run .compactPhase1, .rename,
    .unlink, .unlink, .clearCache, .readAt 1]

set_option maxRecDepth 100000 in
/- The call for task 2 returns the payload of task 3. -/
theorem moved_record_answers_wrong_payload :
    ∃ pop,
      Transition.Run PopSystem.step PopSystem.ShortPushes
          (.start (some 100) 1 0) readOfMovedRecord pop ∧
        pop.calls.map (fun call => call.task.id) = [1, 2] ∧
        pop.calls.map PopCall.payload? =
          [some [1], some [3]] ∧
        ¬ pop.Served := by
  have hAllowed :
      ∀ pop, ∀ action ∈ readOfMovedRecord,
        PopSystem.ShortPushes pop action := by
    simp [readOfMovedRecord, PopSystem.ShortPushes,
      Action.ShortPush, maxUserPayloadSize, maxPayloadSize]
  have hEnd :
      (Transition.execute PopSystem.step readOfMovedRecord
        (.start (some 100) 1 0)).any
          (fun pop =>
            decide
                (pop.calls.map (fun call => call.task.id) =
                  [1, 2]) &&
              decide
                (pop.calls.map PopCall.payload? =
                  [some [1], some [3]]) &&
              pop.calls.any (fun call =>
                decide
                  (call.payload?.isSome ∧
                    lastPayload pop.system.history
                        call.task.id ≠
                      call.payload?))) = true := by
    decide +kernel
  rcases Transition.exists_run_of_execute hAllowed hEnd with
    ⟨pop, hRun, hChecks⟩
  simp only [Bool.and_eq_true, decide_eq_true_eq,
    List.any_eq_true] at hChecks
  rcases hChecks with
    ⟨⟨hTasks, hPayloads⟩, call, hCall, hSome, hWrong⟩
  refine ⟨pop, hRun, hTasks, hPayloads, ?_⟩
  intro hServed
  unfold PopCall.payload? at hSome hWrong
  split at hSome
  · next record retries indexed hReturned =>
      rw [hReturned] at hWrong
      exact hWrong
        ((hServed call hCall _ _ hReturned).payload record
          retries rfl).2
  · simp at hSome

end Nesso
