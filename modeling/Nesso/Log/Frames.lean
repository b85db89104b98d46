import Nesso.Storage.Wal

/-
  The record codec as a framing codec, and what the readers
  of the log find in a segment of whole frames.

  Key definitions include:
    * `frameCodec`
    * `encodeRecords`
    * `WalReader.Coherent`

  The reading theorems are:
    * `segmentRecords_encodeRecords`
    * `frameCodec_exact`
    * `WalReader.Coherent.readAt`
    * `WalReader.Coherent.readAt_of_mem_scan`
-/

------------------------------------------------------------
-- The Frame Codec
------------------------------------------------------------

namespace Nesso

variable [Hasher]

/- A whole frame passes the header and length checks. -/
theorem readFrame_encode_append
    {record : Record}
    (hFits : record.Fits)
    (rest : Bytes) :
    readFrame (record.encode ++ rest) =
      .frame record.encode := by
  have hLength :
      (record.encode ++ rest).length =
        headerSize + record.payload.length +
          rest.length := by
    rw [List.length_append, Record.length_encode]
  have hMagic :
      (record.encode ++ rest).getD 0 0 = magicByte := by
    simp [Record.encode]
  have hLe : ¬ maxPayloadSize < record.payload.length :=
    Nat.not_lt.mpr hFits
  simp only [readFrame, hMagic,
    Record.extractPayloadLen_encode hFits]
  rw [if_neg (by omega), if_neg (by simp), if_neg hLe,
    if_neg (by omega), ← Record.length_encode,
    List.take_left]

omit [Hasher] in
/- The length field lies inside the header. -/
theorem extractPayloadLen_take
    {data : Bytes}
    {size : Nat}
    (hSize : headerSize ≤ size) :
    extractPayloadLen (data.take size) =
      extractPayloadLen data := by
  have hMin : min 19 size = 19 := by
    simp only [headerSize] at hSize
    omega
  rw [extractPayloadLen, extractPayloadLen, slice, slice,
    List.take_take, hMin]

/- A proper prefix of a frame is not a frame. -/
theorem parseFrame_torn
    {record : Record}
    {torn : Bytes}
    (hFits : record.Fits)
    (hPrefix : torn <+: record.encode)
    (hNe : torn ≠ record.encode) :
    parseFrame torn = none := by
  have hLength :
      torn.length < headerSize + record.payload.length := by
    have hLe := hPrefix.length_le
    rw [Record.length_encode] at hLe
    rcases Nat.lt_or_eq_of_le hLe with hLt | hEq
    · exact hLt
    · exact (hNe (hPrefix.eq_of_length
        (by rw [hEq, Record.length_encode]))).elim
  unfold parseFrame
  cases hRead : readFrame torn with
  | frame fullRecord =>
      rcases of_readFrame_eq_frame hRead with
        ⟨hHeader, _, _, hWhole, _⟩
      have hTake :
          torn = record.encode.take torn.length :=
        List.prefix_iff_eq_take.mp hPrefix
      have hWholeLen :=
        Record.extractPayloadLen_encode hFits []
      have hTornLen :
          extractPayloadLen torn =
            record.payload.length := by
        rw [hTake, extractPayloadLen_take hHeader]
        rwa [List.append_nil] at hWholeLen
      omega
  | _ => rfl

/- Records up to the payload limit are admissible. -/
def frameCodec : Framing.Codec UInt8 Record where
  toParser := frameParser
  encode := Record.encode
  Admissible := Record.Fits
  parse_encode_append := by
    intro record hFits rest
    change parseFrame _ = _
    rw [parseFrame, readFrame_encode_append hFits]
    simp only [Record.decode_encode hFits]
  parse_torn := by
    intro record torn hFits hPrefix hNe
    exact parseFrame_torn hFits hPrefix hNe

/- The content of a segment holding the given records. -/
def encodeRecords (records : List Record) : Bytes :=
  Framing.encodeAll Record.encode records

/- A segment of whole frames yields exactly its records. -/
theorem segmentRecords_encodeRecords
    {records : List Record}
    (hFits : ∀ record ∈ records, record.Fits) :
    segmentRecords (encodeRecords records) =
      Framing.located Record.encode 0 records :=
  frameCodec.scan_encodeAll hFits 0

/- Readers stop at a frame above the payload limit. -/
theorem parseFrame_tooLong
    {record : Record}
    (hLong : ¬ record.Fits)
    (hLength : record.payload.length < 2 ^ 32)
    (rest : Bytes) :
    parseFrame (record.encode ++ rest) = none := by
  have hLarge : maxPayloadSize < record.payload.length := by
    simpa [Record.Fits] using hLong
  have hHeader :
      ¬ (record.encode ++ rest).length < headerSize := by
    rw [List.length_append, Record.length_encode]
    omega
  have hMagic :
      (record.encode ++ rest).getD 0 0 = magicByte := by
    simp [Record.encode]
  have hRead :
      readFrame (record.encode ++ rest) = .tooLong := by
    rw [readFrame, if_neg hHeader, hMagic, if_neg (by simp),
      Record.extractPayloadLen_encode_of_lt hLength,
      if_pos hLarge]
  rw [parseFrame, hRead]

/- A segment yields its records up to the first oversized. -/
theorem segmentRecords_encodeRecords_takeWhile
    {records : List Record}
    (hLength :
      ∀ record ∈ records,
        record.payload.length < 2 ^ 32) :
    segmentRecords (encodeRecords records) =
      Framing.located Record.encode 0
        (records.takeWhile (fun record => record.Fits)) := by
  have hFits :
      ∀ record ∈ records.takeWhile
          (fun record => decide record.Fits),
        frameCodec.Admissible record := by
    intro record hRecord
    have hRecordFits : record.Fits := by
      simpa using List.mem_takeWhile_imp hRecord
    exact hRecordFits
  have hStop :
      parseFrame
          (encodeRecords
            (records.dropWhile
              (fun record => decide record.Fits))) =
        none := by
    cases hRest :
        records.dropWhile
          (fun record => decide record.Fits) with
    | nil => exact Framing.Parser.parse_nil frameParser
    | cons record rest =>
        have hNe :
            records.dropWhile
              (fun record => decide record.Fits) ≠ [] := by
          rw [hRest]
          exact List.cons_ne_nil _ _
        have hHead :=
          List.head_dropWhile_not
            (fun record : Record => decide record.Fits) hNe
        have hMem : record ∈ records := by
          apply (List.dropWhile_sublist _).subset
          rw [hRest]
          exact List.mem_cons_self
        simp only [hRest, List.head_cons,
          decide_eq_false_iff_not] at hHead
        rw [encodeRecords, Framing.encodeAll_cons]
        exact parseFrame_tooLong hHead (hLength _ hMem) _
  have hSplit :
      encodeRecords records =
        Framing.encodeAll Record.encode
            (records.takeWhile
              (fun record => decide record.Fits)) ++
          encodeRecords
            (records.dropWhile
              (fun record => decide record.Fits)) := by
    rw [encodeRecords, encodeRecords,
      ← Framing.encodeAll_append,
      List.takeWhile_append_dropWhile]
  have hScan :=
    frameCodec.scan_encodeAll_append hFits 0
      (encodeRecords
        (records.dropWhile
          (fun record => decide record.Fits)))
  have hNil :
      ∀ offset,
        Framing.scan frameCodec.toParser offset
          (encodeRecords
            (records.dropWhile
              (fun record => decide record.Fits))) = [] :=
    Framing.scan_eq_nil hStop
  rw [hNil, List.append_nil] at hScan
  rw [hSplit]
  exact hScan

/- A frame decodes only to the record that it encodes. -/
theorem frameCodec_exact : frameCodec.Exact := by
  intro input size record hParse
  change parseFrame input = _ at hParse
  unfold parseFrame at hParse
  split at hParse
  · next fullRecord hRead =>
      simp only [Option.some.injEq, Prod.mk.injEq] at hParse
      rcases hParse with ⟨hSize, hDecode⟩
      rcases of_readFrame_eq_frame hRead with
        ⟨_, _, _, hWhole, hFull⟩
      have hFrom := Record.decodedFrom_of_decode hDecode
      have hEncode :=
        Record.encode_eq_take_of_decode hDecode
      have hPayloadLen :
          extractPayloadLen input =
            record.payload.length := by
        rw [← hFrom.payloadLen_eq, hFull,
          extractPayloadLen_take (Nat.le_add_right _ _)]
      have hLength :
          fullRecord.length =
            headerSize + record.payload.length := by
        rw [hFull, List.length_take, hPayloadLen]
        omega
      refine ⟨hFrom.fits, ?_⟩
      change input.take size = record.encode
      rw [hEncode, ← hSize, hLength, hFull, hPayloadLen,
        List.take_take, Nat.min_self]
  · simp at hParse

/- No reader yields a record above the payload limit. -/
theorem fits_of_mem_segmentRecords
    {content : Bytes}
    {entry : Nat × Record}
    (hEntry : entry ∈ segmentRecords content) :
    entry.2.Fits := by
  rcases Framing.parse_of_mem_scan hEntry with
    ⟨skipped, size, _, hParse⟩
  exact (frameCodec_exact hParse).1

/- All bytes of a segment of whole frames are valid. -/
theorem validLength_encodeRecords_append
    {records : List Record}
    (hFits : ∀ record ∈ records, record.Fits)
    (rest : Bytes) :
    Framing.validLength frameParser
        (encodeRecords records ++ rest) =
      (encodeRecords records).length +
        Framing.validLength frameParser rest :=
  frameCodec.validLength_encodeAll_append hFits rest

end Nesso

------------------------------------------------------------
-- Reading Records by Location
------------------------------------------------------------

namespace Nesso

namespace WalReader

variable [Hasher]

/- Every cached handle is the current file of its segment. -/
def Coherent
    (reader : WalReader)
    (disk : Disk) : Prop :=
  ∀ entry ∈ reader.readCache,
    disk.lookup (.wal entry.1) = some entry.2

omit [Hasher] in
theorem coherent_new
    (disk : Disk) :
    new.Coherent disk := by
  simp [Coherent, new]

omit [Hasher] in
/- A coherent reader opens the current file. -/
theorem Coherent.openHandle_eq
    {reader : WalReader}
    {disk : Disk}
    (hCoherent : reader.Coherent disk)
    {segmentId inode : Nat}
    (hLookup :
      disk.lookup (.wal segmentId) = some inode) :
    ∃ next,
      reader.openHandle disk segmentId =
        some (inode, next) := by
  unfold openHandle
  cases hFind :
      reader.readCache.find? (·.1 = segmentId) with
  | some entry =>
      have hMem := List.mem_of_find?_eq_some hFind
      have hSegment : entry.1 = segmentId := by
        simpa using List.find?_some hFind
      have hEntry := hCoherent entry hMem
      rw [hSegment, hLookup, Option.some.injEq] at hEntry
      rw [hEntry]
      exact ⟨_, rfl⟩
  | none =>
      simp only [hLookup]
      exact ⟨_, rfl⟩

/- Reading keeps the handle cache coherent. -/
theorem Coherent.readAt
    {reader : WalReader}
    {disk : Disk}
    (hCoherent : reader.Coherent disk)
    (segmentId offset : Nat) :
    (reader.readAt disk segmentId offset).2.Coherent
      disk := by
  unfold WalReader.readAt openHandle
  cases hFind :
      reader.readCache.find? (·.1 = segmentId) with
  | some entry =>
      intro other hOther
      simp only [List.mem_append, List.mem_singleton]
        at hOther
      rcases hOther with hOther | rfl
      · exact hCoherent other (List.mem_of_mem_erase hOther)
      · exact hCoherent other
          (List.mem_of_find?_eq_some hFind)
  | none =>
      cases hLookup : disk.lookup (.wal segmentId) with
      | none => exact hCoherent
      | some inode =>
          intro other hOther
          simp only [List.mem_append, List.mem_singleton]
            at hOther
          rcases hOther with hOther | rfl
          · apply hCoherent
            split at hOther
            · exact List.mem_of_mem_drop hOther
            · exact hOther
          · exact hLookup

/- A frame that a scan reports can be read by location. -/
theorem Coherent.readAt_of_mem_scan
    {reader : WalReader}
    {disk : Disk}
    (hCoherent : reader.Coherent disk)
    {segmentId : Nat}
    {content : Bytes}
    {entry : Nat × Record}
    (hRead : disk.read (.wal segmentId) = some content)
    (hEntry : entry ∈ segmentRecords content) :
    (reader.readAt disk segmentId entry.1).1 =
      .ok (some entry.2) := by
  rcases FileSystem.read_eq_some_iff.mp hRead with
    ⟨inode, hLookup, hContent⟩
  rcases hCoherent.openHandle_eq hLookup with
    ⟨next, hHandle⟩
  rcases Framing.parse_of_mem_scan hEntry with
    ⟨skipped, size, hOffset, hParse⟩
  have hFrame :
      parseFrame (content.drop entry.1) =
        some (size, some entry.2) := by
    rw [hOffset, Nat.zero_add]
    exact hParse
  simp only [WalReader.readAt, hHandle, hContent]
  unfold parseFrame at hFrame
  split at hFrame
  · next fullRecord hFull =>
      simp only [Option.some.injEq, Prod.mk.injEq]
        at hFrame
      simp [hFull, frameResult, hFrame.2]
  · simp at hFrame

end WalReader

end Nesso
