import Nesso.Log.Compaction
import Nesso.Storage.Engine

/-
  User payloads in the log: the first record of a live task
  carries its payload, and compaction keeps it.

  Key definitions include:
    * `Record.IsState`
    * `Record.CarriesPayload`
    * `PayloadIn`

  The main results are:
    * `compacted_payload`
    * `compacted_short`
-/

------------------------------------------------------------
-- Records With Payloads
------------------------------------------------------------

namespace Nesso

namespace Record

/- A state change of a live task, with its metadata. -/
def IsState (record : Record) : Prop :=
  (record.opType = .leased ∧
      13 ≤ record.payload.length) ∨
    ((record.opType = .nacked ∨ record.opType = .expired) ∧
      1 ≤ record.payload.length)

/- A record from which the user payload can be taken. -/
def CarriesPayload (record : Record) : Prop :=
  record.opType = .created ∨ record.IsState

theorem IsState.not_terminal
    {record : Record}
    (hState : record.IsState) :
    record.opType.isTerminal = false ∧
      record.opType ≠ .created := by
  rcases hState with ⟨hOp, _⟩ | ⟨hOp | hOp, _⟩ <;>
    simp [hOp, OpType.isTerminal]

theorem CarriesPayload.not_terminal
    {record : Record}
    (hCarries : record.CarriesPayload) :
    record.opType.isTerminal = false := by
  rcases hCarries with hOp | hState
  · simp [hOp, OpType.isTerminal]
  · exact hState.not_terminal.1

end Record

/-
  The records of one live task: the first one carries the
  payload, the others are state changes.
-/
def PayloadIn
    (records : List Record)
    (payload : Bytes) : Prop :=
  ∃ first rest,
    records = first :: rest ∧
      first.CarriesPayload ∧
      first.userPayload = payload ∧
      ∀ record ∈ rest, record.IsState

/- More state changes do not hide the payload. -/
theorem PayloadIn.append
    {records more : List Record}
    {payload : Bytes}
    (hPayload : PayloadIn records payload)
    (hMore : ∀ record ∈ more, record.IsState) :
    PayloadIn (records ++ more) payload := by
  rcases hPayload with ⟨first, rest, rfl, hFirst, hUser, hRest⟩
  refine ⟨first, rest ++ more, rfl, hFirst, hUser, ?_⟩
  intro record hRecord
  rcases List.mem_append.mp hRecord with hOld | hNew
  · exact hRest record hOld
  · exact hMore record hNew

/- The last record is the first one, or a state change. -/
theorem PayloadIn.of_append_singleton
    {records : List Record}
    {record : Record}
    {payload : Bytes}
    (hPayload : PayloadIn (records ++ [record]) payload) :
    (records = [] ∧ record.CarriesPayload ∧
        record.userPayload = payload) ∨
      (PayloadIn records payload ∧ record.IsState) := by
  rcases hPayload with
    ⟨first, rest, hRecords, hFirst, hUser, hRest⟩
  cases records with
  | nil =>
      simp only [List.nil_append, List.cons.injEq]
        at hRecords
      rw [hRecords.1]
      exact .inl ⟨rfl, hFirst, hUser⟩
  | cons head records =>
      simp only [List.cons_append, List.cons.injEq]
        at hRecords
      rcases hRecords with ⟨rfl, rfl⟩
      right
      refine ⟨⟨head, records, rfl, hFirst, hUser, ?_⟩, ?_⟩
      · intro other hOther
        exact hRest other (by simp [hOther])
      · exact hRest record (by simp)

/- Some first records of a task already have the payload. -/
theorem PayloadIn.split
    {records more : List Record}
    {payload : Bytes}
    (hPayload : PayloadIn (records ++ more) payload)
    (hNe : records ≠ []) :
    PayloadIn records payload ∧
      ∀ record ∈ more, record.IsState := by
  rcases hPayload with
    ⟨first, rest, hRecords, hFirst, hUser, hRest⟩
  cases records with
  | nil => exact (hNe rfl).elim
  | cons head records =>
      simp only [List.cons_append, List.cons.injEq]
        at hRecords
      rcases hRecords with ⟨rfl, rfl⟩
      refine ⟨⟨head, records, rfl, hFirst, hUser, ?_⟩, ?_⟩
      · intro other hOther
        exact hRest other (by simp [hOther])
      · intro other hOther
        exact hRest other (by simp [hOther])

end Nesso

------------------------------------------------------------
-- Payloads Collected by Compaction
------------------------------------------------------------

namespace Nesso

namespace CompactionMaps

/- What one record does to the collected payloads. -/
theorem getElem?_createdPayloads_absorb
    (maps : CompactionMaps)
    (record : Record)
    (id : UInt64) :
    (maps.absorb record).createdPayloads[id]? =
      if record.id = id then
        match record.opType with
        | .acked | .deadLettered => none
        | .created => some record.payload
        | .leased =>
            maps.createdPayloads[id]?.or
              (if 13 ≤ record.payload.length then
                some (record.payload.drop 13)
              else none)
        | .nacked | .expired =>
            maps.createdPayloads[id]?.or
              (if 1 ≤ record.payload.length then
                some (record.payload.drop 1)
              else none)
      else maps.createdPayloads[id]? := by
  unfold absorb
  cases record.opType with
  | created =>
      simp only [Std.ExtTreeMap.getElem?_insert]
      by_cases hId : record.id = id <;> simp [hId]
  | leased =>
      by_cases hLong : 13 ≤ record.payload.length
      · simp only [hLong, if_true,
          KeyedLog.getElem?_insertIfNew_eq_or]
        by_cases hId : record.id = id <;> simp [hId]
      · simp [hLong]
  | acked =>
      simp only [Std.ExtTreeMap.getElem?_erase]
      by_cases hId : record.id = id <;> simp [hId]
  | nacked =>
      by_cases hLong : 1 ≤ record.payload.length
      · simp only [hLong, if_true,
          KeyedLog.getElem?_insertIfNew_eq_or]
        by_cases hId : record.id = id <;> simp [hId]
      · simp [hLong]
  | expired =>
      by_cases hLong : 1 ≤ record.payload.length
      · simp only [hLong, if_true,
          KeyedLog.getElem?_insertIfNew_eq_or]
        by_cases hId : record.id = id <;> simp [hId]
      · simp [hLong]
  | deadLettered =>
      simp only [Std.ExtTreeMap.getElem?_erase]
      by_cases hId : record.id = id <;> simp [hId]

/- A carried payload is collected when none is there yet. -/
theorem getElem?_createdPayloads_of_carries
    {maps : CompactionMaps}
    {record : Record}
    (hCarries : record.CarriesPayload)
    (hNone : maps.createdPayloads[record.id]? = none) :
    (maps.absorb record).createdPayloads[record.id]? =
      some record.userPayload := by
  rw [getElem?_createdPayloads_absorb, if_pos rfl, hNone]
  unfold Record.userPayload
  rcases hCarries with hOp | ⟨hOp, hLong⟩ |
    ⟨hOp | hOp, hLong⟩
  · simp [hOp]
  · simp [hOp, hLong]
  · simp [hOp, hLong]
  · simp [hOp, hLong]

/- A state change never replaces a collected payload. -/
theorem getElem?_createdPayloads_of_state
    {maps : CompactionMaps}
    {record : Record}
    (hState : record.IsState)
    {payload : Bytes}
    (hSome :
      maps.createdPayloads[record.id]? = some payload) :
    (maps.absorb record).createdPayloads[record.id]? =
      some payload := by
  rw [getElem?_createdPayloads_absorb, if_pos rfl, hSome]
  rcases hState with ⟨hOp, _⟩ | ⟨hOp | hOp, _⟩ <;>
    simp [hOp]

/- Nothing is collected for a task without records. -/
theorem getElem?_createdPayloads_eq_none
    {records : List Record}
    {id : UInt64}
    (hNone : KeyedLog.history Record.id records id = []) :
    (ofRecords records).createdPayloads[id]? = none := by
  induction records using List.reverseRecOn with
  | nil => simp [ofRecords, empty]
  | append_singleton records record ih =>
      rw [KeyedLog.history_append, List.append_eq_nil_iff,
        KeyedLog.history_singleton] at hNone
      have hOther : record.id ≠ id := by
        intro hId
        simp [hId] at hNone
      rw [ofRecords_append_singleton,
        getElem?_createdPayloads_absorb, if_neg hOther]
      exact ih hNone.1

/- The collected payload is that of the first record. -/
theorem getElem?_createdPayloads_of_payloadIn
    {records : List Record}
    {id : UInt64}
    {payload : Bytes}
    (hPayload :
      PayloadIn (KeyedLog.history Record.id records id)
        payload) :
    (ofRecords records).createdPayloads[id]? =
      some payload := by
  induction records using List.reverseRecOn with
  | nil =>
      rcases hPayload with ⟨first, rest, hRecords, _⟩
      simp at hRecords
  | append_singleton records record ih =>
      rw [KeyedLog.history_append,
        KeyedLog.history_singleton] at hPayload
      rw [ofRecords_append_singleton]
      by_cases hId : record.id = id
      · subst hId
        rw [if_pos rfl] at hPayload
        rcases hPayload.of_append_singleton with
          ⟨hNone, hCarries, hUser⟩ | ⟨hOld, hState⟩
        · rw [getElem?_createdPayloads_of_carries hCarries
            (getElem?_createdPayloads_eq_none hNone), hUser]
        · exact getElem?_createdPayloads_of_state hState
            (ih hOld)
      · rw [if_neg hId, List.append_nil] at hPayload
        rw [getElem?_createdPayloads_absorb, if_neg hId]
        exact ih hPayload

/- A consolidated record carries the collected payload. -/
theorem recordToWrite_of_state
    {maps : CompactionMaps}
    {record : Record}
    (hState : record.IsState)
    {payload : Bytes}
    (hSome :
      maps.createdPayloads[record.id]? = some payload) :
    (maps.recordToWrite record.id record).CarriesPayload ∧
      (maps.recordToWrite record.id
        record).userPayload = payload := by
  have hCreated := hState.not_terminal.2
  unfold recordToWrite
  rw [if_neg hCreated, hSome]
  rcases hState with ⟨hOp, hLong⟩ | ⟨hOp, hLong⟩
  · have hTake : (record.payload.take 13).length = 13 := by
      rw [List.length_take]
      omega
    have hLength :
        13 ≤ (record.payload.take 13 ++ payload).length := by
      rw [List.length_append]
      omega
    simp only [hOp]
    refine ⟨.inr (.inl ⟨rfl, hLength⟩), ?_⟩
    simp only [Record.userPayload, if_pos hLength]
    rw [List.drop_append_of_le_length (by omega),
      List.drop_of_length_le (by omega), List.nil_append]
  · rcases hOp with hOp | hOp
    · simp only [hOp]
      exact ⟨.inr (.inr ⟨.inl rfl, by simp⟩),
        by simp [Record.userPayload]⟩
    · simp only [hOp]
      exact ⟨.inr (.inr ⟨.inr rfl, by simp⟩),
        by simp [Record.userPayload]⟩

end CompactionMaps

/- Compaction leaves one record with the same payload. -/
theorem compacted_payload
    {records : List Record}
    {id : UInt64}
    {payload : Bytes}
    (hPayload :
      PayloadIn (KeyedLog.history Record.id records id)
        payload) :
    ∃ record ∈ compacted records,
      record.id = id ∧ record.CarriesPayload ∧
        record.userPayload = payload := by
  have hCreated :=
    CompactionMaps.getElem?_createdPayloads_of_payloadIn
      hPayload
  rcases List.eq_nil_or_concat
    (KeyedLog.history Record.id records id) with
    hNil | ⟨front, last, hSplit⟩
  · rw [hNil] at hPayload
    rcases hPayload with ⟨_, _, hRecords, _⟩
    simp at hRecords
  · rw [List.concat_eq_append] at hSplit
    have hLatest :
        KeyedLog.latest Record.id records id =
          some last := by
      rw [KeyedLog.latest, hSplit]
      simp
    have hLastId := (KeyedLog.latest_mem hLatest).2
    rw [hSplit] at hPayload
    have hSurvives :
        last.opType.isTerminal = false →
          (CompactionMaps.ofRecords
            records).latestRecords[id]? = some last := by
      intro hTerminal
      rw [CompactionMaps.getElem?_latestRecords, hLatest]
      simp [Option.filter, hTerminal]
    have hLast :
        (last.opType = .created ∧
            last.userPayload = payload) ∨
          last.IsState := by
      rcases hPayload.of_append_singleton with
        ⟨_, hCreatedOp | hState, hUser⟩ | ⟨_, hState⟩
      · exact .inl ⟨hCreatedOp, hUser⟩
      · exact .inr hState
      · exact .inr hState
    have hMember :
        last.opType.isTerminal = false →
          (CompactionMaps.ofRecords records).recordToWrite
            id last ∈ compacted records := by
      intro hTerminal
      exact mem_compacted_iff.mpr
        ⟨id, last, hSurvives hTerminal, rfl⟩
    refine
      ⟨(CompactionMaps.ofRecords records).recordToWrite id
        last, ?_,
        (CompactionMaps.recordToWrite_fields _ hLastId).1,
        ?_⟩
    · rcases hLast with ⟨hOp, _⟩ | hState
      · exact hMember (by simp [hOp, OpType.isTerminal])
      · exact hMember hState.not_terminal.1
    · rcases hLast with ⟨hOp, hUser⟩ | hState
      · rw [CompactionMaps.recordToWrite, if_pos hOp]
        exact ⟨.inl hOp, hUser⟩
      · have hWritten :=
          CompactionMaps.recordToWrite_of_state hState
            (by rw [hLastId]; exact hCreated)
        rw [hLastId] at hWritten
        exact hWritten

end Nesso

------------------------------------------------------------
-- Size of Consolidated Records
------------------------------------------------------------

namespace Nesso

/- The longest payload that survives any consolidation. -/
def maxUserPayloadSize : Nat := maxPayloadSize - 13

namespace CompactionMaps

/- Collected payloads are payloads of records. -/
theorem length_createdPayloads_le
    {records : List Record}
    {bound : Nat}
    (hShort :
      ∀ record ∈ records,
        record.userPayload.length ≤ bound)
    {id : UInt64}
    {payload : Bytes}
    (hPayload :
      (ofRecords records).createdPayloads[id]? =
        some payload) :
    payload.length ≤ bound := by
  induction records using List.reverseRecOn with
  | nil => simp [ofRecords, empty] at hPayload
  | append_singleton records record ih =>
      have hOld :
          (ofRecords records).createdPayloads[id]? =
            some payload → payload.length ≤ bound :=
        ih (fun other hOther =>
          hShort other (by simp [hOther]))
      have hUser := hShort record (by simp)
      rw [ofRecords_append_singleton,
        getElem?_createdPayloads_absorb] at hPayload
      by_cases hId : record.id = id
      · rw [if_pos hId] at hPayload
        cases hOp : record.opType with
        | created =>
            simp only [hOp, Option.some.injEq] at hPayload
            simp only [Record.userPayload, hOp] at hUser
            rw [← hPayload]
            exact hUser
        | leased =>
            simp only [hOp] at hPayload
            rcases Option.or_eq_some_iff.mp hPayload with
              hSome | ⟨_, hNew⟩
            · exact hOld hSome
            · split at hNew
              · next hLong =>
                  rw [Option.some.injEq] at hNew
                  simp only [Record.userPayload, hOp,
                    if_pos hLong, hNew] at hUser
                  exact hUser
              · simp at hNew
        | acked => simp [hOp] at hPayload
        | nacked =>
            simp only [hOp] at hPayload
            rcases Option.or_eq_some_iff.mp hPayload with
              hSome | ⟨_, hNew⟩
            · exact hOld hSome
            · split at hNew
              · next hLong =>
                  rw [Option.some.injEq] at hNew
                  simp only [Record.userPayload, hOp,
                    if_pos hLong, hNew] at hUser
                  exact hUser
              · simp at hNew
        | expired =>
            simp only [hOp] at hPayload
            rcases Option.or_eq_some_iff.mp hPayload with
              hSome | ⟨_, hNew⟩
            · exact hOld hSome
            · split at hNew
              · next hLong =>
                  rw [Option.some.injEq] at hNew
                  simp only [Record.userPayload, hOp,
                    if_pos hLong, hNew] at hUser
                  exact hUser
              · simp at hNew
        | deadLettered => simp [hOp] at hPayload
      · rw [if_neg hId] at hPayload
        exact hOld hPayload

/- A written record is not much longer than its payload. -/
theorem length_recordToWrite_le
    {maps : CompactionMaps}
    {id : UInt64}
    {record : Record}
    {bound : Nat}
    (hShort : record.userPayload.length ≤ bound)
    (hCreated :
      ∀ payload,
        maps.createdPayloads[id]? = some payload →
          payload.length ≤ bound) :
    (maps.recordToWrite id record).userPayload.length ≤
        bound ∧
      ((maps.recordToWrite id record).payload.length ≤
          record.payload.length ∨
        (maps.recordToWrite id record).payload.length ≤
          13 + bound) := by
  unfold recordToWrite
  split
  · exact ⟨hShort, .inl (le_refl _)⟩
  · split
    · exact ⟨hShort, .inl (le_refl _)⟩
    · next payload hPayload =>
        have hLe := hCreated payload hPayload
        have hTake :=
          List.length_take_le 13 record.payload
        cases hOp : record.opType with
        | leased =>
            simp only [Record.userPayload,
              List.length_append]
            refine ⟨?_, .inr (by omega)⟩
            split
            · rw [List.length_drop, List.length_append]
              omega
            · simp
        | nacked =>
            simp only [Record.userPayload,
              List.length_cons]
            refine ⟨?_, .inr (by omega)⟩
            simpa using hLe
        | expired =>
            simp only [Record.userPayload,
              List.length_cons]
            refine ⟨?_, .inr (by omega)⟩
            simpa using hLe
        | _ => exact ⟨hShort, .inl (le_refl _)⟩

end CompactionMaps

/- Consolidated records of short payloads fit a frame. -/
theorem compacted_short
    {records : List Record}
    (hFits : ∀ record ∈ records, record.Fits)
    (hShort :
      ∀ record ∈ records,
        record.userPayload.length ≤ maxUserPayloadSize) :
    ∀ record ∈ compacted records,
      record.Fits ∧
        record.userPayload.length ≤ maxUserPayloadSize := by
  intro record hRecord
  rcases mem_compacted_iff.mp hRecord with
    ⟨id, last, hLast, rfl⟩
  have hMem :=
    (CompactionMaps.id_of_getElem?_latestRecords hLast).2.1
  rcases CompactionMaps.length_recordToWrite_le
    (hShort last hMem)
    (fun payload hPayload =>
      CompactionMaps.length_createdPayloads_le hShort
        hPayload) with ⟨hUser, hOld | hNew⟩
  · exact ⟨le_trans hOld (hFits last hMem), hUser⟩
  · refine ⟨le_trans hNew ?_, hUser⟩
    simp [maxUserPayloadSize, maxPayloadSize]

end Nesso
