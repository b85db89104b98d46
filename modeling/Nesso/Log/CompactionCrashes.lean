import Nesso.Log.Directories

/-
  Compactions that are interrupted, and what an opening makes
  of the directories they leave.

  Key definitions include:
    * `Wal.compactionSteps`
    * `Wal.Intact`
    * `Wal.Swapped`
    * `Wal.interruptOpen`

  The main theorems are:
    * `CompactionPlan.parse_content`
    * `Wal.intact_or_swapped`
    * `Wal.Intact.read_open`
    * `Wal.Swapped.read_open`
-/

------------------------------------------------------------
-- The Text of a Plan
------------------------------------------------------------

namespace Nesso

namespace CompactionPlan

/- The characters that plan texts are made of. -/
def PlanChar (char : Char) : Prop :=
  char = ',' ∨ char.isDigit = true

theorem PlanChar.toNat_lt
    {char : Char}
    (hChar : PlanChar char) :
    32 < char.toNat ∧ char.toNat < 128 := by
  rcases hChar with hComma | hDigit
  · simp [hComma]
  · rw [Char.isDigit_iff_toNat] at hDigit
    have hLow : '0'.toNat = 48 := by decide
    have hHigh : '9'.toNat = 57 := by decide
    omega

theorem PlanChar.isWhitespace_eq
    {char : Char}
    (hChar : PlanChar char) :
    char.isWhitespace = false := by
  have hLow := hChar.toNat_lt.1
  cases hSpace : char.isWhitespace with
  | false => rfl
  | true =>
      simp only [Char.isWhitespace, Bool.or_eq_true,
        decide_eq_true_eq] at hSpace
      rcases hSpace with ((hEq | hEq) | hEq) | hEq <;>
        · rw [hEq] at hLow
          simp at hLow

/- An ASCII text survives being written and read. -/
theorem ofBytes_toBytes
    {text : List Char}
    (hText : ∀ char ∈ text, PlanChar char) :
    ofBytes (toBytes text) = text := by
  induction text with
  | nil => simp [ofBytes, toBytes]
  | cons char text ih =>
      have hLt := (hText char (by simp)).toNat_lt.2
      have hChar :
          Char.ofNat (UInt8.ofNat char.toNat).toNat =
            char := by
        have hMod : char.toNat % 256 = char.toNat := by
          omega
        simp [hMod]
      have hRest :=
        ih (fun other hOther => hText other (by simp [hOther]))
      simp only [ofBytes, toBytes, List.map_cons, hChar]
      congr 1

theorem trim_eq_self
    {text : List Char}
    (hText : ∀ char ∈ text, PlanChar char) :
    trim text = text := by
  have hKept :
      ∀ other : List Char,
        (∀ char ∈ other, PlanChar char) →
          other.dropWhile Char.isWhitespace = other := by
    intro other hOther
    apply List.dropWhile_eq_self_iff.mpr
    intro hPos
    simp [(hOther _ (List.getElem_mem hPos)).isWhitespace_eq]
  have hReverse :
      ∀ char ∈ text.reverse, PlanChar char := by
    simpa using hText
  simp [trim, hKept text hText, hKept _ hReverse]

theorem planChar_toDigits
    (number : Nat) :
    ∀ char ∈ Nat.toDigits 10 number, PlanChar char := by
  intro char hChar
  exact .inr
    (Nat.isDigit_of_mem_toDigits (by simp) (by simp) hChar)

theorem parseNat?_toDigits
    (number : Nat) :
    parseNat? (Nat.toDigits 10 number) = some number := by
  have hDigits :
      ∀ char ∈ Nat.toDigits 10 number,
        char.isDigit = true := by
    intro char hChar
    exact Nat.isDigit_of_mem_toDigits (by simp) (by simp)
      hChar
  have hValue : Nat.ofDigitChars 10
      (Nat.toDigits 10 number) 0 = number :=
    Nat.ofDigitChars_ten_toDigits
  have hNe : Nat.toDigits 10 number ≠ [] :=
    Nat.toDigits_ne_nil
  unfold parseNat?
  split
  · next digits hText =>
      have hPlus := hDigits '+' (by simp [hText])
      simp at hPlus
  · simpa [hNe, hValue] using hDigits

theorem planChar_intercalate
    {pieces : List (List Char)}
    (hPieces :
      ∀ piece ∈ pieces, ∀ char ∈ piece, PlanChar char) :
    ∀ char ∈ [','].intercalate pieces, PlanChar char := by
  induction pieces with
  | nil => simp
  | cons piece pieces ih =>
      have hRest :=
        ih (fun other hOther =>
          hPieces other (by simp [hOther]))
      intro char hChar
      cases pieces with
      | nil =>
          apply hPieces piece (by simp)
          simpa [List.intercalate] using hChar
      | cons next pieces =>
          simp only [List.intercalate,
            List.intersperse_cons_cons, List.flatten_cons,
            List.mem_append, List.mem_singleton] at hChar
          rcases hChar with hFirst | hComma | hLater
          · exact hPieces piece (by simp) char hFirst
          · exact .inl hComma
          · exact hRest char hLater

/- Reading a plan back yields the planned segments. -/
theorem parse_content
    {ids : List Nat}
    (hSome : ids ≠ []) :
    parse (content ids) = ids := by
  have hPieces :
      ∀ piece ∈ ids.map (Nat.toDigits 10),
        ∀ char ∈ piece, PlanChar char := by
    intro piece hPiece
    rcases List.mem_map.mp hPiece with ⟨id, _, hEq⟩
    rw [← hEq]
    exact planChar_toDigits id
  have hText := planChar_intercalate hPieces
  have hNoComma :
      ∀ piece ∈ ids.map (Nat.toDigits 10),
        ',' ∉ piece := by
    intro piece hPiece hMem
    rcases List.mem_map.mp hPiece with ⟨id, _, hEq⟩
    rw [← hEq] at hMem
    have hDigit :=
      Nat.isDigit_of_mem_toDigits (by simp) (by simp) hMem
    simp at hDigit
  have hNumbers :
      ∀ id : Nat,
        parseNat? (trim (Nat.toDigits 10 id)) = some id := by
    intro id
    rw [trim_eq_self (planChar_toDigits id),
      parseNat?_toDigits]
  rw [parse, content, ofBytes_toBytes hText,
    trim_eq_self hText,
    List.splitOn_intercalate _ hNoComma (by simpa using hSome),
    List.filterMap_map]
  simp [hNumbers]

end CompactionPlan

end Nesso

------------------------------------------------------------
-- What a Crash Can Leave
------------------------------------------------------------

namespace Nesso

namespace Wal

variable [Hasher]

/- All file system steps of both phases, in program order. -/
def compactionSteps
    (disk : Disk)
    (closedSegments : List Nat) : List DiskStep :=
  match collectClosed disk .empty closedSegments with
  | .error _ => []
  | .ok maps =>
      let steps := phase1Steps closedSegments maps.survivors
      steps ++
        phase2Steps (disk.execAll steps) closedSegments

/- Executing the steps is running both phases. -/
theorem execAll_compactionSteps
    {disk target : Disk}
    {ids : List Nat}
    (hCompact :
      compactSegments (fun _ => false) disk ids =
        (.ok (), target)) :
    disk.execAll (compactionSteps disk ids) = target := by
  unfold compactSegments executeCompactionPhase1 at hCompact
  unfold compactionSteps
  cases hMaps : collectClosed disk .empty ids with
  | error error => simp [hMaps] at hCompact
  | ok maps =>
      simp only [hMaps,
        executeCompactionPhase2Failing_never] at hCompact
      unfold executeCompactionPhase2 at hCompact
      split at hCompact
      · rw [Prod.mk.injEq] at hCompact
        rw [FileSystem.execAll_append]
        exact hCompact.2
      · simp at hCompact

/-
  The rename has not happened: all segments are there, and a
  plan is either next to the temporary segment or asks for
  nothing.
-/
structure Intact
    (disk left : Disk) : Prop where
  segments :
    ∀ segmentId,
      left.read (.wal segmentId) =
        disk.read (.wal segmentId)
  no_swap : left.read .compactionSwap = none
  plan :
    left.contains .compactionPlan = true →
      left.contains .compacting = true ∨
        ∀ segmentId ∈
          obsoleteSegments left .compactionPlan,
            disk.read (.wal segmentId) = none

/-
  The rename has happened: what differs from the compacted
  directory is named by the plan.
-/
structure Swapped
    (ids : List Nat)
    (target left : Disk) : Prop where
  no_temp : left.read .compacting = none
  no_swap : left.read .compactionSwap = none
  kept :
    ∀ segmentId, ¬ (segmentId ∈ ids ∧ 1 < segmentId) →
      left.read (.wal segmentId) =
        target.read (.wal segmentId)
  unlinked :
    left.read .compactionPlan =
        some (CompactionPlan.content ids) ∨
      left.read .compactionPlan = none ∧
        ∀ segmentId ∈ ids, 1 < segmentId →
          left.read (.wal segmentId) = none

/- Phase 1 is under way: the temporary segment exists. -/
structure Writing
    (disk left : Disk) : Prop where
  segments :
    ∀ segmentId,
      left.read (.wal segmentId) =
        disk.read (.wal segmentId)
  no_swap : left.read .compactionSwap = none
  temp : left.contains .compacting = true

omit [Hasher] in
/- Writing the temporary segment or the plan goes on. -/
theorem Writing.write
    {disk left : Disk}
    (hWriting : Writing disk left)
    {name : FileName}
    (hName : name = .compacting ∨ name = .compactionPlan)
    (bytes : Bytes) :
    Writing disk
      (FileSystem.Step.exec left (.write name bytes)) := by
  constructor
  · intro segmentId
    rw [FileSystem.read_exec_write, if_neg]
    · exact hWriting.segments segmentId
    · rcases hName with hTemp | hPlan
      · simp [hTemp]
      · simp [hPlan]
  · rw [FileSystem.read_exec_write, if_neg]
    · exact hWriting.no_swap
    · rcases hName with hTemp | hPlan
      · simp [hTemp]
      · simp [hPlan]
  · have hTemp := hWriting.temp
    simp only [Disk.contains_eq,
      FileSystem.read_exec_write] at hTemp ⊢
    split
    · next hEq => simpa [← hEq] using hTemp
    · exact hTemp

omit [Hasher] in
theorem Writing.createPlan
    {disk left : Disk}
    (hWriting : Writing disk left) :
    Writing disk
      (FileSystem.Step.exec left
        (.createTruncate .compactionPlan)) := by
  constructor
  · intro segmentId
    rw [FileSystem.read_exec_createTruncate,
      if_neg (by simp)]
    exact hWriting.segments segmentId
  · rw [FileSystem.read_exec_createTruncate,
      if_neg (by simp)]
    exact hWriting.no_swap
  · have hTemp := hWriting.temp
    simp only [Disk.contains_eq,
      FileSystem.read_exec_createTruncate] at hTemp ⊢
    simpa using hTemp

omit [Hasher] in
theorem Writing.intact
    {disk left : Disk}
    (hWriting : Writing disk left) :
    Intact disk left :=
  ⟨hWriting.segments, hWriting.no_swap,
    fun _ => .inl hWriting.temp⟩

omit [Hasher] in
theorem Intact.of_clean
    {disk : Disk}
    (hClean : disk.Clean) :
    Intact disk disk := by
  refine ⟨fun _ => rfl, hClean _ rfl, ?_⟩
  intro hPlan
  rw [hClean.contains_eq_false rfl] at hPlan
  simp at hPlan

/- A crash in phase 1 leaves all segments in place. -/
theorem intact_of_phase1
    {disk left : Disk}
    (hClean : disk.Clean)
    {ids : List Nat}
    {records : List Record}
    (hCrash :
      FileSystem.CrashesTo disk (phase1Steps ids records)
        left) :
    Intact disk left := by
  rw [phase1Steps] at hCrash
  cases hCrash with
  | stop => exact .of_clean hClean
  | step hCrash =>
      apply Writing.intact
      refine FileSystem.CrashesTo.invariant ?_ ?_ hCrash ?_
      · intro fs step hStep hWriting
        simp only [planSteps, List.mem_append, List.mem_map,
          List.mem_cons, List.not_mem_nil, or_false] at hStep
        rcases hStep with ⟨record, _, hEq⟩ | hEq | hEq |
          hEq | hEq
        · rw [← hEq]
          exact hWriting.write (.inl rfl) _
        · rw [hEq]
          exact hWriting
        · rw [hEq]
          exact hWriting.createPlan
        · rw [hEq]
          exact hWriting.write (.inr rfl) _
        · rw [hEq]
          exact hWriting
      · intro fs name bytes size hStep hWriting
        apply hWriting.write
        simp only [planSteps, List.mem_append, List.mem_map,
          List.mem_cons, List.not_mem_nil, or_false,
          FileSystem.Step.write.injEq, reduceCtorEq,
          false_or] at hStep
        rcases hStep with ⟨record, _, hEq, _⟩ | ⟨hEq, _⟩
        · exact .inl hEq.symm
        · exact .inr hEq
      · constructor
        · intro segmentId
          rw [FileSystem.read_exec_createTruncate,
            if_neg (by simp)]
        · rw [FileSystem.read_exec_createTruncate,
            if_neg (by simp)]
          exact hClean _ rfl
        · simp [Disk.contains_eq,
            FileSystem.read_exec_createTruncate]

end Wal

namespace Wal

variable [Hasher]

/- The directory that an undisturbed compaction leaves. -/
structure CompactsTo
    (disk : Disk)
    (ids rest : List Nat)
    (target : Disk) : Prop where
  executes :
    disk.execAll (compactionSteps disk ids) = target
  settled : target.Settled
  first :
    target.read (.wal 1) =
      some (encodeRecords (compacted (recordsIn disk ids)))
  kept :
    ∀ segmentId, segmentId ≠ 1 → segmentId ∉ ids →
      target.read (.wal segmentId) =
        disk.read (.wal segmentId)
  unlinked :
    ∀ segmentId ∈ ids, 1 < segmentId →
      target.read (.wal segmentId) = none
  records :
    recordsIn target target.segmentIds =
      (compacted (recordsIn disk ids)).takeWhile
          (fun record => record.Fits) ++
        recordsIn disk rest

theorem exists_compactsTo
    {disk : Disk}
    (hSettled : disk.Settled)
    {ids rest : List Nat}
    (hIds : disk.segmentIds = ids ++ rest)
    (hSome : ids ≠ [])
    (hRest : rest ≠ []) :
    ∃ target, CompactsTo disk ids rest target := by
  have hLeftover : leftover (fun _ => false) ids = [] := by
    simp [leftover]
  have hSorted := Disk.segmentIds_pairwise_lt disk
  rw [hIds, List.pairwise_append] at hSorted
  rcases compaction_failing_spec hIds hSettled.one_le hSome
    (fun _ => false) with
    ⟨result, written, target, hPhase1, hPhase2, hClean,
      hTargetIds, hReadOne, hReadKept⟩
  rw [hLeftover, List.nil_append] at hTargetIds hReadKept
  have hCompact :
      compactSegments (fun _ => false) disk ids =
        (.ok (), target) := by
    simp only [compactSegments, hPhase1]
    exact hPhase2
  rcases List.eq_nil_or_concat rest with
    hNil | ⟨front, last, hConcat⟩
  · exact (hRest hNil).elim
  · rw [List.concat_eq_append] at hConcat
    have hSplit :
        disk.segmentIds = ids ++ (front ++ [last]) := by
      rw [hIds, hConcat]
    rcases compactSegments_spec hSettled hSplit hSome
      (fun _ => false) with
      ⟨swapped, hSwapped, hSwappedSettled, _, hOne, hKept⟩
    have hSame : swapped = target := by
      rw [hCompact] at hSwapped
      exact (Prod.mk.inj hSwapped).2.symm
    subst hSame
    have hNone :
        ∀ segmentId, segmentId ≠ 1 → segmentId ∉ rest →
          swapped.read (.wal segmentId) = none := by
      intro segmentId hFirst hNot
      by_contra hSomeRead
      have hMem :=
        Disk.mem_segmentIds_iff.mpr
          (Option.ne_none_iff_exists'.mp hSomeRead)
      rw [hTargetIds] at hMem
      rcases List.mem_cons.mp hMem with hEq | hEq
      · exact hFirst hEq
      · exact hNot hEq
    refine ⟨swapped, execAll_compactionSteps hCompact,
      hSwappedSettled, hReadOne, ?_, ?_, ?_⟩
    · intro segmentId hFirst hNot
      by_cases hLater : segmentId ∈ rest
      · exact hReadKept segmentId hLater
      · rw [hNone segmentId hFirst hLater]
        by_contra hSomeRead
        have hMem :=
          Disk.mem_segmentIds_iff.mpr
            (Option.ne_none_iff_exists'.mp
              (Ne.symm hSomeRead))
        rw [hIds, List.mem_append] at hMem
        rcases hMem with hMem | hMem
        · exact hNot hMem
        · exact hLater hMem
    · intro segmentId hMem hLt
      apply hNone segmentId (by omega)
      intro hLater
      exact lt_irrefl _
        (hSorted.2.2 segmentId hMem segmentId hLater)
    · rw [hTargetIds, ← List.singleton_append,
        recordsIn_append, hOne,
        hKept rest (by simp [hLeftover, hConcat])]

/- The steps of a compaction on existing segments. -/
theorem compactionSteps_eq
    {disk : Disk}
    {ids rest : List Nat}
    (hIds : disk.segmentIds = ids ++ rest) :
    compactionSteps disk ids =
      phase1Steps ids (compacted (recordsIn disk ids)) ++
        (.rename .compacting (.wal 1) ::
          (unlinkedNames ids).map
            (fun name => .remove name)) := by
  have hPresent :
      ∀ segmentId ∈ ids,
        ∃ content,
          disk.read (.wal segmentId) = some content := by
    intro segmentId hMem
    apply Disk.mem_segmentIds_iff.mp
    simp [hIds, hMem]
  have hPlan :
      Disk.contains
        (disk.execAll
          (phase1Steps ids
            (compacted (recordsIn disk ids))))
          .compactionPlan = true := by
    simp [Disk.contains_eq, read_phase1]
  rw [compactionSteps, collectClosed_of_present hPresent]
  change phase1Steps ids (compacted (recordsIn disk ids)) ++
    phase2Steps
      (disk.execAll
        (phase1Steps ids
          (compacted (recordsIn disk ids)))) ids = _
  rw [phase2Steps_eq, if_pos hPlan, List.nil_append]

/- Every crash of a compaction is before or after the swap. -/
theorem intact_or_swapped
    {disk left target : Disk}
    (hSettled : disk.Settled)
    {ids rest : List Nat}
    (hIds : disk.segmentIds = ids ++ rest)
    (hTarget : CompactsTo disk ids rest target)
    (hCrash :
      FileSystem.CrashesTo disk (compactionSteps disk ids)
        left) :
    FileSystem.CrashesTo disk
        (phase1Steps ids (compacted (recordsIn disk ids)))
        left ∨
      Swapped ids target left := by
  rw [compactionSteps_eq hIds] at hCrash
  rcases hCrash.append_cases with hPhase1 | hPhase2
  · exact .inl hPhase1
  have hWritten :=
    read_phase1 disk ids (compacted (recordsIn disk ids))
  cases hPhase2 with
  | stop => exact .inl (.finished _ _)
  | step hUnlinks =>
      right
      rcases FileSystem.CrashesTo.of_removes hUnlinks with
        ⟨count, hLeft⟩
      have hTemp := hWritten .compacting
      simp only [if_true] at hTemp
      have hRead :
          ∀ name,
            left.read name =
              if name ∈ (unlinkedNames ids).take count then
                none
              else if name = .wal 1 then
                some (encodeRecords
                  (compacted (recordsIn disk ids)))
              else if name = .compacting then none
              else if name = .compactionPlan then
                some (CompactionPlan.content ids)
              else disk.read name := by
        intro name
        rw [hLeft, FileSystem.read_execAll_removes,
          FileSystem.Step.exec,
          FileSystem.read_rename hTemp, hWritten]
        by_cases hName : name = .compacting
        · simp [hName]
        · simp [hName]
      have hUnlinked :
          ∀ segmentId,
            .wal segmentId ∈
                (unlinkedNames ids).take count →
              segmentId ∈ ids ∧ 1 < segmentId := by
        intro segmentId hMem
        have hName := List.mem_of_mem_take hMem
        simpa [unlinkedNames] using hName
      constructor
      · simp [hRead]
      · simp [hRead, hSettled.clean .compactionSwap rfl]
      · intro segmentId hKept
        rw [hRead, if_neg (fun hMem =>
          hKept (hUnlinked segmentId hMem))]
        by_cases hFirst : segmentId = 1
        · simp [hFirst, hTarget.first]
        · by_cases hMem : segmentId ∈ ids
          · have hOne :=
              hSettled.one_le segmentId (by simp [hIds, hMem])
            exact (hKept ⟨hMem, by omega⟩).elim
          · simp [hFirst, hTarget.kept segmentId hFirst hMem]
      · by_cases hCount :
            count ≤ (ids.filter (1 < ·)).length
        · left
          have hPlan :
              FileName.compactionPlan ∉
                (unlinkedNames ids).take count := by
            rw [unlinkedNames,
              List.take_append_of_le_length
                (by simpa using hCount)]
            intro hMem
            have hName := List.mem_of_mem_take hMem
            simp at hName
          simp [hRead, hPlan]
        · right
          have hAll :
              ∀ name ∈ (ids.filter (1 < ·)).map
                  FileName.wal ++ [.compactionPlan],
                name ∈ (unlinkedNames ids).take count := by
            intro name hName
            have hSplit :
                unlinkedNames ids =
                  ((ids.filter (1 < ·)).map FileName.wal ++
                    [.compactionPlan]) ++
                      [.compactionSwap] := by
              simp [unlinkedNames]
            rw [hSplit, List.take_append]
            apply List.mem_append_left
            rwa [List.take_of_length_le (by
              simp only [List.length_append,
                List.length_map, List.length_singleton]
              omega)]
          constructor
          · rw [hRead, if_pos (hAll _ (by simp))]
          · intro segmentId hMem hLt
            rw [hRead, if_pos]
            apply hAll
            simp [hMem, hLt]

end Wal

end Nesso

------------------------------------------------------------
-- Interrupted Openings
------------------------------------------------------------

namespace Nesso

namespace Wal

variable [Hasher]
variable {disk : Disk}

/- An opening that stops after some of its steps. -/
def interruptOpen
    (disk : Disk)
    (count : Nat) : Disk :=
  disk.execAll ((openSteps disk).take count)

/- The files that an opening unlinks, in order. -/
def removedNames (disk : Disk) : List FileName :=
  if disk.contains .compactionPlan then
    if disk.contains .compacting then
      [.compacting, .compactionPlan]
    else
      (obsoleteSegments disk .compactionPlan).map .wal ++
        [.compactionPlan]
  else if disk.contains .compacting then
    [.compacting]
  else
    []

omit [Hasher] in
theorem wal_mem_removedNames_iff
    {segmentId : Nat} :
    .wal segmentId ∈ removedNames disk ↔
      disk.contains .compactionPlan = true ∧
        disk.contains .compacting = false ∧
        segmentId ∈
          obsoleteSegments disk .compactionPlan := by
  cases hPlan : disk.contains .compactionPlan <;>
    cases hTemp : disk.contains .compacting <;>
      simp [removedNames, hPlan, hTemp]

omit [Hasher] in
/- Every leftover of a compaction is removed. -/
theorem mem_removedNames_of_contains
    {name : FileName}
    (hName : name = .compacting ∨ name = .compactionPlan)
    (hContains : disk.contains name = true) :
    name ∈ removedNames disk := by
  rcases hName with hTemp | hPlan
  · subst hTemp
    cases hPlan : disk.contains .compactionPlan <;>
      simp [removedNames, hPlan, hContains]
  · subst hPlan
    cases hTemp : disk.contains .compacting <;>
      simp [removedNames, hTemp, hContains]

omit [Hasher] in
theorem sweep_eq
    (hSwap : disk.read .compactionSwap = none) :
    cleanupSteps disk ++
        sweepSteps (disk.execAll (cleanupSteps disk)) =
      (removedNames disk).map (fun name => .remove name) := by
  have hNoSwap : disk.contains .compactionSwap = false := by
    simp [Disk.contains_eq, hSwap]
  cases hPlan : disk.contains .compactionPlan with
  | false =>
      cases hTemp : disk.contains .compacting <;>
        simp [cleanupSteps, activePlan, removedNames,
          sweepSteps, hPlan, hNoSwap, hTemp]
  | true =>
      have hCleanup :
          cleanupSteps disk =
            (removedNames disk).map
              (fun name => .remove name) := by
        cases hTemp : disk.contains .compacting <;>
          simp [cleanupSteps, activePlan, removedNames,
            hPlan, hTemp]
      have hAfter :
          Disk.contains
            (disk.execAll
              ((removedNames disk).map
                (fun name => .remove name)))
              .compacting = false := by
        rw [Disk.contains_eq,
          FileSystem.read_execAll_removes]
        cases hTemp : disk.contains .compacting with
        | true => simp [removedNames, hPlan, hTemp]
        | false =>
            rw [Disk.contains_eq] at hTemp
            split
            · rfl
            · exact hTemp
      simp [hCleanup, sweepSteps, hAfter]

theorem openSteps_eq
    (hSwap : disk.read .compactionSwap = none) :
    openSteps disk =
      (removedNames disk).map (fun name => .remove name) ++
        activateSteps (sweep disk) := by
  rw [openSteps, ← List.append_assoc, sweep_eq hSwap]

omit [Hasher] in
/- The files that are left of a crashed compaction. -/
theorem read_sweep
    (hSwap : disk.read .compactionSwap = none)
    (name : FileName) :
    (sweep disk).read name =
      if name ∈ removedNames disk then none
      else disk.read name := by
  rw [sweep, ← FileSystem.execAll_append, sweep_eq hSwap,
    FileSystem.read_execAll_removes]

/- A whole active segment is only opened. -/
theorem activateSteps_of_settled
    (hSettled : disk.Settled) :
    activateSteps disk =
      [.create (.wal (lastSegmentId disk))] := by
  rcases Disk.mem_segmentIds_iff.mp hSettled.last_mem with
    ⟨content, hRead⟩
  have hWhole := hSettled.whole content hRead
  simp [activateSteps, validOffset, hRead, hWhole]

/- An interrupted cleanup has done its first unlinks. -/
theorem read_interruptOpen
    (hSwap : disk.read .compactionSwap = none)
    (hSettled : (sweep disk).Settled)
    (count : Nat)
    (name : FileName) :
    (interruptOpen disk count).read name =
      if name ∈ (removedNames disk).take count then none
      else disk.read name := by
  rw [interruptOpen, openSteps_eq hSwap,
    activateSteps_of_settled hSettled, List.take_append,
    FileSystem.execAll_append, List.length_map,
    ← List.map_take]
  by_cases hCount : count ≤ (removedNames disk).length
  · rw [Nat.sub_eq_zero_of_le hCount, List.take_zero,
      FileSystem.execAll_nil,
      FileSystem.read_execAll_removes]
  · have hAll :
        (removedNames disk).take count =
          removedNames disk :=
      List.take_of_length_le (by omega)
    have hSwept :
        disk.execAll
            ((removedNames disk).map
              (fun name => .remove name)) =
          sweep disk := by
      rw [← sweep_eq hSwap, FileSystem.execAll_append,
        sweep]
    rcases Disk.mem_segmentIds_iff.mp hSettled.last_mem with
      ⟨content, hRead⟩
    have hOne :
        1 ≤ count - (removedNames disk).length := by omega
    rw [hAll, hSwept,
      List.take_of_length_le (by simpa using hOne),
      FileSystem.execAll_cons,
      FileSystem.execAll_nil, FileSystem.Step.exec,
      FileSystem.read_create, ← read_sweep hSwap]
    split
    · next hName => simp [hName, hRead]
    · rfl

/- A finished cleanup leaves what the sweep leaves. -/
theorem read_open_of_settled
    (hSwap : disk.read .compactionSwap = none)
    (hSettled : (sweep disk).Settled)
    (maxSegmentSize : Option Nat)
    (name : FileName) :
    (Wal.open disk maxSegmentSize).1.read name =
      (sweep disk).read name := by
  have hAll :
      (Wal.open disk maxSegmentSize).1 =
        interruptOpen disk (openSteps disk).length := by
    simp [Wal.open, interruptOpen]
  have hLength :
      (removedNames disk).length ≤
        (openSteps disk).length := by
    simp [openSteps_eq hSwap]
  rw [hAll, read_interruptOpen hSwap hSettled,
    List.take_of_length_le hLength, read_sweep hSwap]

end Wal

namespace Wal

variable [Hasher]
variable {disk left target : Disk} {ids rest : List Nat}

omit [Hasher] in
theorem obsoleteSegments_content
    (hSome : ids ≠ [])
    (hPlan :
      left.read .compactionPlan =
        some (CompactionPlan.content ids)) :
    obsoleteSegments left .compactionPlan =
      ids.filter (1 < ·) := by
  simp [obsoleteSegments, hPlan,
    CompactionPlan.parse_content hSome]

omit [Hasher] in
/- After the sweep no file of a compaction is left. -/
theorem clean_sweep
    (hSwap : left.read .compactionSwap = none) :
    (sweep left).Clean := by
  intro name hName
  rw [Wal.read_sweep hSwap]
  split
  · rfl
  · next hKept =>
      have hNone :
          name = .compacting ∨ name = .compactionPlan →
            left.read name = none := by
        intro hEq
        by_contra hRead
        apply hKept
        apply mem_removedNames_of_contains hEq
        simpa [Disk.contains_eq, Option.isSome_iff_ne_none]
          using hRead
      cases name with
      | wal segmentId =>
          simp [FileName.segmentId?] at hName
      | compacting => exact hNone (.inl rfl)
      | compactionPlan => exact hNone (.inr rfl)
      | compactionSwap => exact hSwap

omit [Hasher] in
/- Cleaning up before the swap restores the directory. -/
theorem Intact.read_sweep
    (hClean : disk.Clean)
    (hIntact : Intact disk left)
    (name : FileName) :
    (sweep left).read name = disk.read name := by
  cases hName : name.segmentId? with
  | none =>
      rw [clean_sweep hIntact.no_swap name hName,
        hClean name hName]
  | some segmentId =>
      cases name with
      | wal segmentId =>
          rw [Wal.read_sweep hIntact.no_swap]
          split
          · next hMem =>
              rcases wal_mem_removedNames_iff.mp hMem with
                ⟨hPlan, hTemp, hObsolete⟩
              rcases hIntact.plan hPlan with
                hPresent | hHarmless
              · simp [hTemp] at hPresent
              · exact (hHarmless segmentId hObsolete).symm
          · exact hIntact.segments segmentId
      | _ => simp [FileName.segmentId?] at hName

omit [Hasher] in
/- Cleaning up after the swap completes the compaction. -/
theorem Swapped.read_sweep
    (hSome : ids ≠ [])
    (hClean : target.Clean)
    (hUnlinked :
      ∀ segmentId ∈ ids, 1 < segmentId →
        target.read (.wal segmentId) = none)
    (hSwapped : Swapped ids target left)
    (name : FileName) :
    (sweep left).read name = target.read name := by
  cases hName : name.segmentId? with
  | none =>
      rw [clean_sweep hSwapped.no_swap name hName,
        hClean name hName]
  | some segmentId =>
      cases name with
      | wal segmentId =>
          rw [Wal.read_sweep hSwapped.no_swap]
          rcases hSwapped.unlinked with
            hPlan | ⟨hPlan, hGone⟩
          · have hNames :
                FileName.wal segmentId ∈
                    removedNames left ↔
                  segmentId ∈ ids ∧ 1 < segmentId := by
              rw [wal_mem_removedNames_iff,
                obsoleteSegments_content hSome hPlan]
              simp [Disk.contains_eq, hPlan,
                hSwapped.no_temp]
            by_cases hMem : segmentId ∈ ids ∧ 1 < segmentId
            · rw [if_pos (hNames.mpr hMem),
                hUnlinked segmentId hMem.1 hMem.2]
            · rw [if_neg (fun hName =>
                hMem (hNames.mp hName)),
                hSwapped.kept segmentId hMem]
          · have hNames :
                FileName.wal segmentId ∉
                  removedNames left := by
              rw [wal_mem_removedNames_iff]
              simp [Disk.contains_eq, hPlan]
            rw [if_neg hNames]
            by_cases hMem : segmentId ∈ ids ∧ 1 < segmentId
            · rw [hGone segmentId hMem.1 hMem.2,
                hUnlinked segmentId hMem.1 hMem.2]
            · exact hSwapped.kept segmentId hMem
      | _ => simp [FileName.segmentId?] at hName

/- One interruption before the swap. -/
theorem Intact.interruptOpen
    (hSettled : disk.Settled)
    (hIntact : Intact disk left)
    {count : Nat}
    (hAtomic :
      count = 1 → left.contains .compacting = true →
        left.contains .compactionPlan = true →
          ∀ segmentId ∈
            obsoleteSegments left .compactionPlan,
              left.contains (.wal segmentId) = false) :
    Intact disk (Wal.interruptOpen left count) := by
  have hSwept : (sweep left).Settled :=
    hSettled.of_read_eq
      (hIntact.read_sweep hSettled.clean)
  have hRead :=
    read_interruptOpen hIntact.no_swap hSwept count
  constructor
  · intro segmentId
    rw [hRead]
    split
    · next hMem =>
        rw [← hIntact.read_sweep hSettled.clean,
          Wal.read_sweep hIntact.no_swap,
          if_pos (List.mem_of_mem_take hMem)]
    · exact hIntact.segments segmentId
  · rw [hRead]
    split
    · rfl
    · exact hIntact.no_swap
  · intro hPlan
    rw [Disk.contains_eq, hRead] at hPlan
    split at hPlan
    · simp at hPlan
    · next hKept =>
        have hSame :
            obsoleteSegments (Wal.interruptOpen left count)
                .compactionPlan =
              obsoleteSegments left .compactionPlan := by
          simp [obsoleteSegments, hRead, hKept]
        rw [← Disk.contains_eq] at hPlan
        cases hTemp : left.contains .compacting with
        | false =>
            right
            rw [hSame]
            rcases hIntact.plan hPlan with
              hPresent | hHarmless
            · simp [hTemp] at hPresent
            · exact hHarmless
        | true =>
            have hNames :
                removedNames left =
                  [.compacting, .compactionPlan] := by
              simp [removedNames, hPlan, hTemp]
            have hCount : count = 0 ∨ count = 1 := by
              by_contra hMany
              apply hKept
              rw [hNames, List.take_of_length_le (by
                simp only [List.length_cons,
                  List.length_nil]
                omega)]
              simp
            rcases hCount with hZero | hOne
            · left
              rw [Disk.contains_eq] at hTemp ⊢
              rw [hRead, hZero]
              simpa using hTemp
            · right
              rw [hSame]
              intro segmentId hObsolete
              have hAbsent :=
                hAtomic hOne hTemp hPlan segmentId hObsolete
              rw [Disk.contains_eq, hIntact.segments,
                Option.isSome_eq_false_iff,
                Option.isNone_iff_eq_none] at hAbsent
              exact hAbsent

/- One interruption after the swap. -/
theorem Swapped.interruptOpen
    (hSome : ids ≠ [])
    (hTarget : CompactsTo disk ids rest target)
    (hSwapped : Swapped ids target left)
    (count : Nat) :
    Swapped ids target (Wal.interruptOpen left count) := by
  have hSweep :=
    hSwapped.read_sweep hSome hTarget.settled.clean
      hTarget.unlinked
  have hSwept : (sweep left).Settled :=
    hTarget.settled.of_read_eq hSweep
  have hRead :=
    read_interruptOpen hSwapped.no_swap hSwept count
  have hTemp : left.contains .compacting = false := by
    simp [Disk.contains_eq, hSwapped.no_temp]
  constructor
  · rw [hRead, hSwapped.no_temp]
    simp
  · rw [hRead, hSwapped.no_swap]
    simp
  · intro segmentId hKept
    rw [hRead]
    split
    · next hMem =>
        rw [← hSweep, Wal.read_sweep hSwapped.no_swap,
          if_pos (List.mem_of_mem_take hMem)]
    · exact hSwapped.kept segmentId hKept
  · rcases hSwapped.unlinked with hPlan | ⟨hPlan, hGone⟩
    · have hNames :
          removedNames left =
            (ids.filter (1 < ·)).map .wal ++
              [.compactionPlan] := by
        simp [removedNames, hTemp, Disk.contains_eq, hPlan,
          obsoleteSegments_content hSome hPlan]
      by_cases hCount :
          count ≤ (ids.filter (1 < ·)).length
      · left
        rw [hRead, hNames, if_neg, hPlan]
        rw [List.take_append_of_le_length
          (by simpa using hCount)]
        intro hMem
        have hName := List.mem_of_mem_take hMem
        simp at hName
      · right
        have hAll :
            (removedNames left).take count =
              removedNames left := by
          apply List.take_of_length_le
          rw [hNames, List.length_append, List.length_map,
            List.length_singleton]
          omega
        constructor
        · rw [hRead, hAll, hNames, if_pos (by simp)]
        · intro segmentId hMem hLt
          rw [hRead, hAll, hNames,
            if_pos (by simp [hMem, hLt])]
    · right
      constructor
      · rw [hRead, hPlan]
        simp
      · intro segmentId hMem hLt
        rw [hRead, hGone segmentId hMem hLt]
        simp

/- Opening before the swap restores the directory. -/
theorem Intact.read_open
    (hSettled : disk.Settled)
    (hIntact : Intact disk left)
    (maxSegmentSize : Option Nat)
    (name : FileName) :
    (Wal.open left maxSegmentSize).1.read name =
      disk.read name := by
  rw [read_open_of_settled hIntact.no_swap
    (hSettled.of_read_eq
      (hIntact.read_sweep hSettled.clean)),
    hIntact.read_sweep hSettled.clean]

/- Opening after the swap completes the compaction. -/
theorem Swapped.read_open
    (hSome : ids ≠ [])
    (hTarget : CompactsTo disk ids rest target)
    (hSwapped : Swapped ids target left)
    (maxSegmentSize : Option Nat)
    (name : FileName) :
    (Wal.open left maxSegmentSize).1.read name =
      target.read name := by
  have hSweep :=
    hSwapped.read_sweep hSome hTarget.settled.clean
      hTarget.unlinked
  rw [read_open_of_settled hSwapped.no_swap
    (hTarget.settled.of_read_eq hSweep), hSweep]

end Wal

end Nesso
