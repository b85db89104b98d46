import Nesso.Library.BigEndian
import Nesso.Library.Framing

/-
  The on-disk record of the write-ahead log
  (`storage/record.rs`).

  The checksum routine is a parameter: the codec only relies
  on it being a function of the bytes it is given.

  Key definitions include:
    * `OpType`
    * `Record`
    * `Record.encode`
    * `Record.decode`

  The codec theorems are:
    * `Record.decode_encode_append`
    * `Record.encode_eq_take_of_decode`
    * `Record.codec`
-/

------------------------------------------------------------
-- Records
------------------------------------------------------------

namespace Nesso

/- Payloads, frames and files are byte strings. -/
abbrev Bytes :=
  List UInt8

/- The state change a record reports. -/
inductive OpType where
| created
| leased
| acked
| nacked
| expired
| deadLettered
deriving DecidableEq, Repr

namespace OpType

/- The discriminant written to disk. -/
def toByte : OpType → UInt8
| created => 0
| leased => 1
| acked => 2
| nacked => 3
| expired => 4
| deadLettered => 5

/- Reject every byte that is not a discriminant. -/
def ofByte? (byte : UInt8) : Option OpType :=
  if byte = 0 then some created
  else if byte = 1 then some leased
  else if byte = 2 then some acked
  else if byte = 3 then some nacked
  else if byte = 4 then some expired
  else if byte = 5 then some deadLettered
  else none

/- Acknowledged and dead-lettered tasks are finished. -/
def isTerminal : OpType → Bool
| acked => true
| deadLettered => true
| _ => false

theorem ofByte?_toByte
    (op : OpType) :
    ofByte? op.toByte = some op := by
  cases op <;> rfl

theorem toByte_of_ofByte?
    {byte : UInt8}
    {op : OpType}
    (hByte : ofByte? byte = some op) :
    op.toByte = byte := by
  unfold ofByte? at hByte
  repeat' split at hByte
  all_goals first
    | (rw [Option.some.injEq] at hByte
       subst hByte
       simp_all [toByte])
    | simp at hByte

end OpType

structure Record where
  id : UInt64
  opType : OpType
  priority : UInt8
  payload : Bytes
deriving DecidableEq, Repr

/- `'N'`, the first byte of every frame. -/
def magicByte : UInt8 := 0x4E

/-
  Magic (1), checksum (4), operation (1), priority (1),
  id (8) and payload length (4).
-/
def headerSize : Nat := 19

/- 64 MiB. -/
def maxPayloadSize : Nat := 64 * 1024 * 1024

/- The checksum of a byte string (`crc32fast::Hasher`). -/
class Hasher where
  checksum : Bytes → UInt32

/- The bytes of `data` from `first` up to `last`. -/
def slice
    (data : Bytes)
    (first last : Nat) : Bytes :=
  (data.take last).drop first

/- The length field of a frame header. -/
def extractPayloadLen (header : Bytes) : Nat :=
  ofBeBytes (slice header 15 19)

namespace Record

variable [Hasher]

/- The checksummed part of a frame. -/
def body (record : Record) : Bytes :=
  record.opType.toByte :: record.priority ::
    (beBytes 8 record.id.toNat ++
      (beBytes 4 (UInt32.ofNat record.payload.length).toNat
        ++ record.payload))

def encode (record : Record) : Bytes :=
  magicByte ::
    (beBytes 4 (Hasher.checksum record.body).toNat ++
      record.body)

def decode (data : Bytes) : Option Record :=
  if data.length < headerSize then
    none
  else if data.getD 0 0 ≠ magicByte then
    none
  else if maxPayloadSize < extractPayloadLen data then
    none
  else
    let totalLen := headerSize + extractPayloadLen data
    if data.length < totalLen then
      none
    else
      let expectedChecksum :=
        UInt32.ofNat (ofBeBytes (slice data 1 5))
      if Hasher.checksum (slice data 5 totalLen) ≠
          expectedChecksum then
        none
      else
        match OpType.ofByte? (data.getD 5 0) with
        | none => none
        | some opType =>
            some
              { id :=
                  UInt64.ofNat (ofBeBytes (slice data 7 15))
                opType := opType
                priority := data.getD 6 0
                payload := slice data 19 totalLen }

/- The readers accept no payload above the limit. -/
def Fits (record : Record) : Prop :=
  record.payload.length ≤ maxPayloadSize

instance (record : Record) : Decidable record.Fits := by
  unfold Fits
  infer_instance

end Record

end Nesso

------------------------------------------------------------
-- Frame Layout
------------------------------------------------------------

namespace Nesso

namespace Record

variable [Hasher]

omit [Hasher] in
theorem length_body
    (record : Record) :
    record.body.length = 14 + record.payload.length := by
  simp only [body, List.length_cons, List.length_append,
    length_beBytes]
  omega

/- A frame is its header and its payload. -/
theorem length_encode
    (record : Record) :
    record.encode.length =
      headerSize + record.payload.length := by
  simp only [encode, List.length_cons, List.length_append,
    length_beBytes, length_body, headerSize]
  omega

theorem encode_length_pos
    (record : Record) :
    0 < record.encode.length := by
  rw [length_encode, headerSize]
  omega

/- The fields of a frame sit at fixed offsets. -/
theorem slice_encode_checksum
    (record : Record)
    (rest : Bytes) :
    slice (record.encode ++ rest) 1 5 =
      beBytes 4 (Hasher.checksum record.body).toNat := by
  simp [slice, encode, beBytes]

theorem slice_encode_id
    (record : Record)
    (rest : Bytes) :
    slice (record.encode ++ rest) 7 15 =
      beBytes 8 record.id.toNat := by
  simp [slice, encode, body, beBytes]

/- A 32-bit length is written and read without loss. -/
theorem extractPayloadLen_encode_of_lt
    {record : Record}
    (hLength : record.payload.length < 2 ^ 32)
    (rest : Bytes) :
    extractPayloadLen (record.encode ++ rest) =
      record.payload.length := by
  have hToNat :
      (UInt32.ofNat record.payload.length).toNat =
        record.payload.length := by
    rw [UInt32.toNat_ofNat']
    exact Nat.mod_eq_of_lt (by omega)
  have hSlice :
      slice (record.encode ++ rest) 15 19 =
        beBytes 4 record.payload.length := by
    rw [← hToNat]
    simp [slice, encode, body, beBytes]
  rw [extractPayloadLen, hSlice, ofBeBytes_beBytes]
  exact Nat.mod_eq_of_lt (by omega)

theorem extractPayloadLen_encode
    {record : Record}
    (hFits : record.Fits)
    (rest : Bytes) :
    extractPayloadLen (record.encode ++ rest) =
      record.payload.length := by
  have hLe : record.payload.length ≤ 64 * 1024 * 1024 :=
    hFits
  exact extractPayloadLen_encode_of_lt (by omega) rest

theorem slice_encode_body
    (record : Record)
    (rest : Bytes) :
    slice (record.encode ++ rest) 5
        (headerSize + record.payload.length) =
      record.body := by
  have hTake :
      (record.encode ++ rest).take
          (headerSize + record.payload.length) =
        record.encode := by
    rw [← length_encode, List.take_left]
  rw [slice, hTake]
  simp [encode, beBytes]

theorem slice_encode_payload
    (record : Record)
    (rest : Bytes) :
    slice (record.encode ++ rest) 19
        (headerSize + record.payload.length) =
      record.payload := by
  have hTake :
      (record.encode ++ rest).take
          (headerSize + record.payload.length) =
        record.encode := by
    rw [← length_encode, List.take_left]
  rw [slice, hTake]
  simp [encode, body, beBytes]

/-
  Decoding reads back an admissible record whatever follows
  its frame.
-/
theorem decode_encode_append
    {record : Record}
    (hFits : record.Fits)
    (rest : Bytes) :
    decode (record.encode ++ rest) = some record := by
  have hLength :
      (record.encode ++ rest).length =
        headerSize + record.payload.length +
          rest.length := by
    rw [List.length_append, length_encode]
  have hMagic :
      (record.encode ++ rest).getD 0 0 = magicByte := by
    simp [encode]
  have hOp :
      (record.encode ++ rest).getD 5 0 =
        record.opType.toByte := by
    simp [encode, body, beBytes]
  have hPriority :
      (record.encode ++ rest).getD 6 0 =
        record.priority := by
    simp [encode, body, beBytes]
  have hChecksum :
      UInt32.ofNat
          (ofBeBytes (slice (record.encode ++ rest) 1 5)) =
        Hasher.checksum record.body := by
    have hLt := (Hasher.checksum record.body).toNat_lt
    rw [slice_encode_checksum, ofBeBytes_beBytes,
      Nat.mod_eq_of_lt (by omega), UInt32.ofNat_toNat]
  have hId :
      UInt64.ofNat
          (ofBeBytes (slice (record.encode ++ rest) 7 15)) =
        record.id := by
    have hLt := record.id.toNat_lt
    rw [slice_encode_id, ofBeBytes_beBytes,
      Nat.mod_eq_of_lt (by omega), UInt64.ofNat_toNat]
  have hLe : ¬ maxPayloadSize < record.payload.length :=
    Nat.not_lt.mpr hFits
  simp only [decode, extractPayloadLen_encode hFits, hMagic,
    hOp, hPriority, hChecksum, hId, slice_encode_body,
    slice_encode_payload, OpType.ofByte?_toByte]
  rw [if_neg (by omega), if_neg (by simp), if_neg hLe,
    if_neg (by omega), if_neg (by simp)]

/- A frame decodes to the record it encodes. -/
theorem decode_encode
    {record : Record}
    (hFits : record.Fits) :
    decode record.encode = some record := by
  have hDecode := decode_encode_append hFits []
  rwa [List.append_nil] at hDecode

end Record

end Nesso

------------------------------------------------------------
-- Accepted Frames
------------------------------------------------------------

namespace Nesso

theorem length_slice
    {data : Bytes}
    {last : Nat}
    (hLast : last ≤ data.length)
    (first : Nat) :
    (slice data first last).length = last - first := by
  simp [slice, Nat.min_eq_left hLast]

theorem slice_succ
    {data : Bytes}
    {index : Nat}
    (hIndex : index < data.length) :
    slice data index (index + 1) = [data.getD index 0] := by
  rw [slice, List.take_add_one, List.drop_append_of_le_length
    (by simp; omega), List.drop_eq_nil_of_le (by simp),
    List.getElem?_eq_getElem hIndex,
    List.getD_eq_getElem _ _ hIndex]
  rfl

/- Neighbouring slices join. -/
theorem slice_append_slice
    (data : Bytes)
    {first middle last : Nat}
    (hFirst : first ≤ middle)
    (hMiddle : middle ≤ last) :
    slice data first middle ++ slice data middle last =
      slice data first last := by
  have hTake :
      data.take middle = (data.take last).take middle := by
    rw [List.take_take, Nat.min_eq_left hMiddle]
  have hDrop :
      (data.take last).drop middle =
        ((data.take last).drop first).drop
          (middle - first) := by
    rw [List.drop_drop, Nat.add_sub_cancel' hFirst]
  simp only [slice]
  rw [hTake, List.drop_take, hDrop, List.take_append_drop]

namespace Record

variable [Hasher]

/- What an accepted frame looks like. -/
structure DecodedFrom
    (record : Record)
    (data : Bytes) : Prop where
  length_le :
    headerSize + record.payload.length ≤ data.length
  magic : data.getD 0 0 = magicByte
  payloadLen_eq :
    extractPayloadLen data = record.payload.length
  fits : record.Fits
  checksum_eq :
    Hasher.checksum
        (slice data 5
          (headerSize + record.payload.length)) =
      UInt32.ofNat (ofBeBytes (slice data 1 5))
  opType_eq :
    OpType.ofByte? (data.getD 5 0) = some record.opType
  priority_eq : record.priority = data.getD 6 0
  id_eq :
    record.id = UInt64.ofNat (ofBeBytes (slice data 7 15))
  payload_eq :
    record.payload =
      slice data 19 (headerSize + record.payload.length)

theorem decodedFrom_of_decode
    {data : Bytes}
    {record : Record}
    (hDecode : decode data = some record) :
    record.DecodedFrom data := by
  unfold decode at hDecode
  split at hDecode
  · simp at hDecode
  · split at hDecode
    · simp at hDecode
    · next hMagic =>
        split at hDecode
        · simp at hDecode
        · next hLimit =>
            dsimp only at hDecode
            split at hDecode
            · simp at hDecode
            · next hLength =>
                split at hDecode
                · simp at hDecode
                · next hChecksum =>
                    split at hDecode
                    · simp at hDecode
                    · next opType hOp =>
                        rw [Option.some.injEq] at hDecode
                        have hPayload :
                            record.payload.length =
                              extractPayloadLen data := by
                          rw [← hDecode, length_slice
                            (by omega)]
                          simp [headerSize]
                        constructor
                        · omega
                        · simpa using hMagic
                        · exact hPayload.symm
                        · rw [Fits, hPayload]
                          omega
                        · simpa [hPayload] using hChecksum
                        · rw [hOp, ← hDecode]
                        · rw [← hDecode]
                        · rw [← hDecode]
                        · rw [hPayload, ← hDecode]

/- The checksummed part is stored as it was computed. -/
theorem DecodedFrom.slice_body
    {data : Bytes}
    {record : Record}
    (hFrom : record.DecodedFrom data) :
    slice data 5 (headerSize + record.payload.length) =
      record.body := by
  have hLength := hFrom.length_le
  have hLe : headerSize ≤ data.length := by omega
  simp only [headerSize] at hLength hLe
  have hOp :
      slice data 5 6 = [record.opType.toByte] := by
    rw [slice_succ (by omega),
      OpType.toByte_of_ofByte? hFrom.opType_eq]
  have hPriority : slice data 6 7 = [record.priority] := by
    rw [slice_succ (by omega), hFrom.priority_eq]
  have hId :
      slice data 7 15 = beBytes 8 record.id.toNat := by
    have hWidth : (slice data 7 15).length = 8 :=
      length_slice (by omega) 7
    have hLt := ofBeBytes_lt (slice data 7 15)
    rw [hWidth] at hLt
    rw [hFrom.id_eq, UInt64.toNat_ofNat',
      Nat.mod_eq_of_lt (by omega),
      beBytes_ofBeBytes hWidth]
  have hPayloadLen :
      slice data 15 19 =
        beBytes 4
          (UInt32.ofNat record.payload.length).toNat := by
    have hWidth : (slice data 15 19).length = 4 :=
      length_slice (by omega) 15
    have hLt := ofBeBytes_lt (slice data 15 19)
    rw [hWidth] at hLt
    rw [← hFrom.payloadLen_eq, extractPayloadLen,
      UInt32.toNat_ofNat', Nat.mod_eq_of_lt (by omega),
      beBytes_ofBeBytes hWidth]
  have hSplit :
      slice data 5 6 ++ (slice data 6 7 ++
          (slice data 7 15 ++ (slice data 15 19 ++
            slice data 19
              (headerSize + record.payload.length)))) =
        slice data 5
          (headerSize + record.payload.length) := by
    have hEnd : 19 ≤ headerSize + record.payload.length := by
      simp [headerSize]
    rw [slice_append_slice data (by omega) hEnd,
      slice_append_slice data (by omega) (by omega),
      slice_append_slice data (by omega) (by omega),
      slice_append_slice data (by omega) (by omega)]
  rw [← hSplit, hOp, hPriority, hId, hPayloadLen,
    ← hFrom.payload_eq]
  rfl

/- An accepted frame is the encoding of what it decodes to. -/
theorem encode_eq_take_of_decode
    {data : Bytes}
    {record : Record}
    (hDecode : decode data = some record) :
    record.encode =
      data.take (headerSize + record.payload.length) := by
  have hFrom := decodedFrom_of_decode hDecode
  have hLength := hFrom.length_le
  have hLe : headerSize ≤ data.length := by omega
  simp only [headerSize] at hLe
  have hMagic : slice data 0 1 = [magicByte] := by
    rw [slice_succ (by omega), hFrom.magic]
  have hChecksum :
      slice data 1 5 =
        beBytes 4 (Hasher.checksum record.body).toNat := by
    have hWidth : (slice data 1 5).length = 4 :=
      length_slice (by omega) 1
    have hLt := ofBeBytes_lt (slice data 1 5)
    rw [hWidth] at hLt
    rw [← hFrom.slice_body, hFrom.checksum_eq,
      UInt32.toNat_ofNat', Nat.mod_eq_of_lt (by omega),
      beBytes_ofBeBytes hWidth]
  have hSplit :
      slice data 0 1 ++ (slice data 1 5 ++
          slice data 5
            (headerSize + record.payload.length)) =
        slice data 0
          (headerSize + record.payload.length) := by
    have hEnd : 5 ≤ headerSize + record.payload.length := by
      simp only [headerSize]
      omega
    rw [slice_append_slice data (by omega) hEnd,
      slice_append_slice data (by omega) (by omega)]
  rw [hMagic, hChecksum, hFrom.slice_body] at hSplit
  simpa [slice, encode] using hSplit

/-
  Decoding inverts encoding whatever follows the frame, an
  accepted string starts with the encoding of its record, and
  no encoding is a proper prefix of another.
-/
theorem codec :
    (∀ record : Record, record.Fits →
      ∀ rest, decode (record.encode ++ rest) =
        some record) ∧
      (∀ data record, decode data = some record →
        record.encode <+: data) ∧
      (∀ left right : Record, left.Fits → right.Fits →
        left.encode = right.encode → left = right) ∧
      (∀ left right : Record, left.Fits → right.Fits →
        left.encode <+: right.encode →
          left.encode = right.encode) := by
  refine ⟨?_, ?_, ?_, ?_⟩
  · intro record hFits rest
    exact decode_encode_append hFits rest
  · intro data record hDecode
    rw [encode_eq_take_of_decode hDecode]
    exact List.take_prefix _ _
  · intro left right hLeft hRight hEq
    have hDecode := decode_encode hLeft
    rw [hEq, decode_encode hRight] at hDecode
    exact (Option.some.inj hDecode).symm
  · intro left right hLeft hRight hPrefix
    rcases hPrefix with ⟨rest, hRest⟩
    have hDecode := decode_encode_append hLeft rest
    rw [hRest, decode_encode hRight] at hDecode
    rw [Option.some.inj hDecode]

end Record

end Nesso
