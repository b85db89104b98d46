import Nesso.Storage.Checksum

/-
  Frames with one flipped bit.

  Key definitions include:
    * `flipBit`
    * `Record.cut`
    * `Record.HidesFlip`

  The main theorems are:
    * `crc32_flipBit_ne`
    * `Record.decode_flipBit_eq_none_iff`
-/

------------------------------------------------------------
-- One Changed Byte Changes the Checksum
------------------------------------------------------------

namespace Nesso

/- The step of the shift register. -/
def crcBit (register : UInt32) : UInt32 :=
  if register &&& 1 = 1 then
    (register >>> 1) ^^^ 0xEDB88320
  else
    register >>> 1

theorem crcByte_eq
    (register : UInt32)
    (byte : UInt8) :
    crcByte register byte =
      crcBit^[8] (register ^^^ byte.toUInt32) := rfl

theorem and_one_eq_one_iff
    (register : UInt32) :
    register &&& 1 = 1 ↔
      register.toBitVec.getLsbD 0 = true := by
  have hAnd :
      register.toBitVec &&& (1 : UInt32).toBitVec =
        BitVec.setWidth 32
          (BitVec.ofBool (register.toBitVec.getLsbD 0)) :=
    BitVec.and_one_eq_setWidth_ofBool_getLsbD
  rw [← UInt32.toBitVec_inj, UInt32.toBitVec_and, hAnd]
  cases register.toBitVec.getLsbD 0 <;> decide

/- The bit that is shifted out reappears at the top. -/
theorem getLsbD_crcBit
    (register : UInt32) :
    (crcBit register).toBitVec.getLsbD 31 =
      register.toBitVec.getLsbD 0 := by
  have hShift :
      (register >>> 1).toBitVec.getLsbD 31 = false := by
    simp [UInt32.toBitVec_shiftRight]
  have hPolynomial :
      (0xEDB88320 : UInt32).toBitVec.getLsbD 31 = true := by
    decide
  unfold crcBit
  split
  · next hOne =>
      rw [and_one_eq_one_iff] at hOne
      rw [UInt32.toBitVec_xor, BitVec.getLsbD_xor, hShift,
        hPolynomial, hOne]
      rfl
  · next hZero =>
      rw [and_one_eq_one_iff, Bool.not_eq_true] at hZero
      rw [hShift, hZero]

theorem crcBit_injective : Function.Injective crcBit := by
  intro left right hEq
  have hLow :
      left.toBitVec.getLsbD 0 =
        right.toBitVec.getLsbD 0 := by
    rw [← getLsbD_crcBit, hEq, getLsbD_crcBit]
  have hShift : left >>> 1 = right >>> 1 := by
    unfold crcBit at hEq
    simp only [and_one_eq_one_iff, hLow] at hEq
    split at hEq
    · simpa using hEq
    · exact hEq
  apply UInt32.toBitVec_inj.mp
  apply BitVec.eq_of_getLsbD_eq
  intro bit _
  cases bit with
  | zero => exact hLow
  | succ bit =>
      have hBit :=
        congrArg
          (fun register : UInt32 =>
            register.toBitVec.getLsbD bit)
          hShift
      simpa [UInt32.toBitVec_shiftRight, Nat.add_comm]
        using hBit

/- Neither the register nor the byte is forgotten. -/
theorem crcByte_injective
    (byte : UInt8) :
    Function.Injective
      (fun register => crcByte register byte) := by
  intro left right hEq
  simp only [crcByte_eq] at hEq
  have hXor := crcBit_injective.iterate 8 hEq
  simpa using hXor

theorem crcByte_injective_byte
    (register : UInt32) :
    Function.Injective (crcByte register) := by
  intro left right hEq
  simp only [crcByte_eq] at hEq
  have hXor := crcBit_injective.iterate 8 hEq
  have hWide : left.toUInt32 = right.toUInt32 := by
    simpa using hXor
  have hToNat := congrArg UInt32.toNat hWide
  rw [UInt8.toNat_toUInt32, UInt8.toNat_toUInt32] at hToNat
  exact UInt8.toNat_inj.mp hToNat

theorem foldl_crcByte_injective
    (bytes : Bytes) :
    Function.Injective
      (fun register => bytes.foldl crcByte register) := by
  induction bytes with
  | nil => exact Function.injective_id
  | cons byte bytes ih => exact ih.comp (crcByte_injective byte)

/- Messages that differ in one byte have other checksums. -/
theorem crc32_ne_of_byte_ne
    (front back : Bytes)
    {byte other : UInt8}
    (hNe : byte ≠ other) :
    crc32 (front ++ byte :: back) ≠
      crc32 (front ++ other :: back) := by
  intro hEq
  unfold crc32 at hEq
  have hFold :
      (front ++ byte :: back).foldl crcByte 0xFFFFFFFF =
        (front ++ other :: back).foldl crcByte
          0xFFFFFFFF := by
    simpa using hEq
  simp only [List.foldl_append, List.foldl_cons] at hFold
  exact hNe
    (crcByte_injective_byte _
      (foldl_crcByte_injective back hFold))

end Nesso

------------------------------------------------------------
-- Flipping One Bit
------------------------------------------------------------

namespace Nesso

/- Bit `position % 8` of byte `position / 8` is flipped. -/
def flipBit
    (data : Bytes)
    (position : Nat) : Bytes :=
  data.modify (position / 8) (fun byte =>
    byte ^^^ UInt8.ofNat (2 ^ (position % 8)))

@[simp] theorem length_flipBit
    (data : Bytes)
    (position : Nat) :
    (flipBit data position).length = data.length := by
  simp [flipBit]

theorem flipBit_cons_of_lt
    {position : Nat}
    (hPosition : position < 8)
    (byte : UInt8)
    (data : Bytes) :
    flipBit (byte :: data) position =
      (byte ^^^ UInt8.ofNat (2 ^ position)) :: data := by
  have hIndex : position / 8 = 0 := by omega
  have hBit : position % 8 = position := by omega
  simp [flipBit, hIndex, hBit]

theorem flipBit_cons_of_le
    {position : Nat}
    (hPosition : 8 ≤ position)
    (byte : UInt8)
    (data : Bytes) :
    flipBit (byte :: data) position =
      byte :: flipBit data (position - 8) := by
  have hIndex : position / 8 = (position - 8) / 8 + 1 := by
    omega
  have hBit : position % 8 = (position - 8) % 8 := by omega
  rw [flipBit, hIndex, hBit, List.modify_succ_cons]
  rfl

theorem flipBit_append_left
    {left : Bytes}
    {position : Nat}
    (hPosition : position < 8 * left.length)
    (right : Bytes) :
    flipBit (left ++ right) position =
      flipBit left position ++ right := by
  induction left generalizing position with
  | nil => simp at hPosition
  | cons byte left ih =>
      rw [List.length_cons] at hPosition
      by_cases hFirst : position < 8
      · rw [List.cons_append, flipBit_cons_of_lt hFirst,
          flipBit_cons_of_lt hFirst, List.cons_append]
      · rw [List.cons_append,
          flipBit_cons_of_le (by omega),
          flipBit_cons_of_le (by omega), ih (by omega),
          List.cons_append]

theorem flipBit_append_right
    {left : Bytes}
    {position : Nat}
    (hPosition : 8 * left.length ≤ position)
    (right : Bytes) :
    flipBit (left ++ right) position =
      left ++
        flipBit right (position - 8 * left.length) := by
  induction left generalizing position with
  | nil => simp
  | cons byte left ih =>
      rw [List.length_cons] at hPosition ⊢
      have hRest :
          position - 8 - 8 * left.length =
            position - 8 * (left.length + 1) := by
        omega
      rw [List.cons_append, flipBit_cons_of_le (by omega),
        ih (by omega), hRest, List.cons_append]

/- A flip changes one byte. -/
theorem flipBit_split
    {data : Bytes}
    {position : Nat}
    (hPosition : position < 8 * data.length) :
    ∃ front byte other back,
      data = front ++ byte :: back ∧
        flipBit data position = front ++ other :: back ∧
        byte ≠ other ∧
        front.length = position / 8 := by
  have hIndex : position / 8 < data.length := by omega
  have hMask :
      UInt8.ofNat (2 ^ (position % 8)) ≠ 0 := by
    have hBit : position % 8 < 8 := Nat.mod_lt _ (by decide)
    interval_cases position % 8 <;> decide
  refine ⟨data.take (position / 8), data[position / 8],
    data[position / 8] ^^^
      UInt8.ofNat (2 ^ (position % 8)),
    data.drop (position / 8 + 1), ?_, ?_, ?_, ?_⟩
  · simp
  · rw [flipBit, List.modify_eq_take_cons_drop hIndex]
  · intro hEq
    apply hMask
    simpa using hEq.symm
  · rw [List.length_take]
    omega

/- Only the low bytes of a number are written. -/
theorem beBytes_eq_of_mod_eq
    {width left right : Nat}
    (hMod :
      left % 2 ^ (8 * width) = right % 2 ^ (8 * width)) :
    beBytes width left = beBytes width right := by
  have hPow : 256 ^ width = 2 ^ (8 * width) := by
    rw [Nat.pow_mul]
  apply ofBeBytes_inj
  · simp
  · rw [ofBeBytes_beBytes, ofBeBytes_beBytes, hPow, hMod]

theorem xor_two_pow_div
    (n size bit : Nat) :
    (n ^^^ 2 ^ (size + bit)) / 2 ^ size =
      n / 2 ^ size ^^^ 2 ^ bit := by
  rw [← Nat.shiftRight_eq_div_pow,
    ← Nat.shiftRight_eq_div_pow,
    Nat.shiftRight_xor_distrib, Nat.shiftRight_eq_div_pow
      (2 ^ (size + bit)), Nat.pow_add,
    Nat.mul_div_cancel_left _ (Nat.two_pow_pos size)]

theorem ofNat_xor
    (left right : Nat) :
    UInt8.ofNat (left ^^^ right) =
      UInt8.ofNat left ^^^ UInt8.ofNat right := by
  apply UInt8.toNat_inj.mp
  rw [UInt8.toNat_xor, UInt8.toNat_ofNat',
    UInt8.toNat_ofNat', UInt8.toNat_ofNat']
  exact Nat.xor_mod_two_pow (n := 8)

/- Flipping a bit of a numeral flips a bit of the number. -/
theorem flipBit_beBytes
    {width position : Nat}
    (hPosition : position < 8 * width)
    (n : Nat) :
    flipBit (beBytes width n) position =
      beBytes width
        (n ^^^ 2 ^ (8 * (width - 1 - position / 8) +
          position % 8)) := by
  induction width generalizing position with
  | zero => simp at hPosition
  | succ width ih =>
      have hPow : 256 ^ width = 2 ^ (8 * width) := by
        rw [Nat.pow_mul]
      rw [beBytes, beBytes, hPow]
      by_cases hFirst : position < 8
      · have hBit :
            8 * (width + 1 - 1 - position / 8) +
                position % 8 =
              8 * width + position := by
          omega
        have hLow :
            beBytes width
                (n ^^^ 2 ^ (8 * width + position)) =
              beBytes width n := by
          apply beBytes_eq_of_mod_eq
          rw [Nat.xor_mod_two_pow, Nat.pow_add,
            Nat.mul_mod_right, Nat.xor_zero]
        rw [flipBit_cons_of_lt hFirst, hBit, hLow,
          xor_two_pow_div, ofNat_xor]
      · have hBit :
            8 * (width + 1 - 1 - position / 8) +
                position % 8 =
              8 * (width - 1 - (position - 8) / 8) +
                (position - 8) % 8 := by
          omega
        have hSmall :
            2 ^ (8 * (width - 1 - (position - 8) / 8) +
                (position - 8) % 8) / 2 ^ (8 * width) =
              0 := by
          apply Nat.div_eq_of_lt
          apply Nat.pow_lt_pow_right (by decide)
          omega
        rw [flipBit_cons_of_le (by omega), hBit,
          ih (by omega), ← Nat.shiftRight_eq_div_pow
            (n ^^^ _), Nat.shiftRight_xor_distrib,
          Nat.shiftRight_eq_div_pow,
          Nat.shiftRight_eq_div_pow, hSmall, Nat.xor_zero]

/- One flip changes the checksum. -/
theorem crc32_flipBit_ne
    {data : Bytes}
    {position : Nat}
    (hPosition : position < 8 * data.length) :
    crc32 (flipBit data position) ≠ crc32 data := by
  rcases flipBit_split hPosition with
    ⟨front, byte, other, back, hData, hFlip, hNe, _⟩
  rw [hFlip, hData]
  exact crc32_ne_of_byte_ne front back hNe.symm

end Nesso

------------------------------------------------------------
-- Flipped Frames
------------------------------------------------------------

namespace Nesso

theorem flipBit_ne
    {data : Bytes}
    {position : Nat}
    (hPosition : position < 8 * data.length) :
    flipBit data position ≠ data := by
  intro hEq
  apply crc32_flipBit_ne hPosition
  simp only [hEq]

/- A set bit is cleared by subtracting its weight. -/
theorem xor_two_pow_of_testBit
    {n bit : Nat}
    (hBit : n.testBit bit = true) :
    n ^^^ 2 ^ bit = n - 2 ^ bit := by
  have hOdd : n / 2 ^ bit % 2 = 1 := by
    simpa [Nat.testBit_eq_decide_div_mod_eq] using hBit
  have hDiv :
      (n ^^^ 2 ^ bit) / 2 ^ bit = n / 2 ^ bit - 1 := by
    calc
      (n ^^^ 2 ^ bit) / 2 ^ bit
          = n / 2 ^ bit ^^^ 2 ^ 0 := xor_two_pow_div n bit 0
      _ = n / 2 ^ bit - 1 :=
          Nat.xor_one_of_odd (Nat.odd_iff.mpr hOdd)
  have hMod : (n ^^^ 2 ^ bit) % 2 ^ bit = n % 2 ^ bit := by
    simp [Nat.xor_mod_two_pow]
  have hWhole := Nat.div_add_mod n (2 ^ bit)
  have hFlipped := Nat.div_add_mod (n ^^^ 2 ^ bit) (2 ^ bit)
  rw [hDiv, hMod, Nat.mul_sub] at hFlipped
  have hPos : 1 ≤ n / 2 ^ bit := by
    by_contra hZero
    simp [Nat.lt_one_iff.mp (Nat.lt_of_not_le hZero)] at hOdd
  have hLe : 2 ^ bit * 1 ≤ 2 ^ bit * (n / 2 ^ bit) :=
    Nat.mul_le_mul_left _ hPos
  omega

theorem lt_xor_two_pow_of_testBit
    {n bit : Nat}
    (hBit : n.testBit bit = false) :
    n < n ^^^ 2 ^ bit := by
  have hEven : n / 2 ^ bit % 2 = 0 := by
    have hNot : ¬ n / 2 ^ bit % 2 = 1 := by
      simpa [Nat.testBit_eq_decide_div_mod_eq] using hBit
    omega
  have hDiv :
      (n ^^^ 2 ^ bit) / 2 ^ bit = n / 2 ^ bit + 1 := by
    calc
      (n ^^^ 2 ^ bit) / 2 ^ bit
          = n / 2 ^ bit ^^^ 2 ^ 0 := xor_two_pow_div n bit 0
      _ = n / 2 ^ bit + 1 :=
          Nat.xor_one_of_even (Nat.even_iff.mpr hEven)
  by_contra hLe
  have hMono :
      (n ^^^ 2 ^ bit) / 2 ^ bit ≤ n / 2 ^ bit :=
    Nat.div_le_div_right (by omega)
  omega

namespace Record

/- The magic byte and the checksum. -/
def frameFront (record : Record) : Bytes :=
  magicByte :: beBytes 4 (crc32 record.body).toNat

/- The fields between the checksum and the length. -/
def bodyFront (record : Record) : Bytes :=
  record.opType.toByte :: record.priority ::
    beBytes 8 record.id.toNat

/- The record with a shorter payload. -/
def cut
    (record : Record)
    (size : Nat) : Record :=
  { record with payload := record.payload.take size }

@[simp] theorem length_frameFront
    (record : Record) :
    record.frameFront.length = 5 := by
  simp [frameFront]

@[simp] theorem length_bodyFront
    (record : Record) :
    record.bodyFront.length = 10 := by
  simp [bodyFront]

theorem encode_eq_front
    (record : Record) :
    record.encode = record.frameFront ++ record.body := rfl

theorem length_lt_of_fits
    {record : Record}
    (hFits : record.Fits) :
    record.payload.length < 2 ^ 32 := by
  have hLe : record.payload.length ≤ 64 * 1024 * 1024 :=
    hFits
  omega

theorem body_eq_front
    {record : Record}
    (hFits : record.Fits) :
    record.body =
      record.bodyFront ++
        (beBytes 4 record.payload.length ++
          record.payload) := by
  have hToNat :
      (UInt32.ofNat record.payload.length).toNat =
        record.payload.length := by
    have hLt := length_lt_of_fits hFits
    rw [UInt32.toNat_ofNat']
    exact Nat.mod_eq_of_lt (by omega)
  simp [body, bodyFront, hToNat]

/- The length field is where the header ends. -/
theorem extractPayloadLen_append
    {front : Bytes}
    (hFront : front.length = 15)
    {size : Nat}
    (hSize : size < 2 ^ 32)
    (rest : Bytes) :
    extractPayloadLen (front ++ (beBytes 4 size ++ rest)) =
      size := by
  have hSlice :
      slice (front ++ (beBytes 4 size ++ rest)) 15 19 =
        beBytes 4 size := by
    simp [slice, List.take_append, hFront]
  rw [extractPayloadLen, hSlice, ofBeBytes_beBytes]
  exact Nat.mod_eq_of_lt (by omega)

/- Two frames agree only in checksum and body together. -/
theorem checksum_eq_of_encode_eq
    {record : Record}
    {checksum : UInt32}
    {rest : Bytes}
    (hEncode :
      record.encode =
        magicByte :: beBytes 4 checksum.toNat ++ rest) :
    record.body = rest ∧ crc32 record.body = checksum := by
  rw [encode_eq_front] at hEncode
  have hParts :=
    List.append_inj hEncode (by simp [frameFront])
  refine ⟨hParts.2, ?_⟩
  have hBytes :
      beBytes 4 (crc32 record.body).toNat =
        beBytes 4 checksum.toNat :=
    (List.cons.inj hParts.1).2
  have hNumbers := congrArg ofBeBytes hBytes
  rw [ofBeBytes_beBytes, ofBeBytes_beBytes] at hNumbers
  have hLeft := (crc32 record.body).toNat_lt
  have hRight := checksum.toNat_lt
  apply UInt32.toNat_inj.mp
  omega

end Record

end Nesso

------------------------------------------------------------
-- Rejected Flips
------------------------------------------------------------

namespace Nesso

namespace Record

/-
  Clearing a bit of the length field leaves a frame of the
  cut payload; the flip is hidden when that frame has the
  checksum of the whole one.
-/
def HidesFlip
    (record : Record)
    (position : Nat) : Prop :=
  ∃ bit, bit < 32 ∧
    position = 8 * (18 - bit / 8) + bit % 8 ∧
    record.payload.length.testBit bit = true ∧
    crc32
        (record.cut
          (record.payload.length - 2 ^ bit)).body =
      crc32 record.body

theorem flipBit_encode_frameFront
    {record : Record}
    {position : Nat}
    (hPosition : position < 40) :
    flipBit record.encode position =
      flipBit record.frameFront position ++
        record.body := by
  rw [encode_eq_front]
  exact flipBit_append_left (by simp; omega) _

theorem flipBit_encode_body
    {record : Record}
    {position : Nat}
    (hPosition : 40 ≤ position) :
    flipBit record.encode position =
      record.frameFront ++
        flipBit record.body (position - 40) := by
  rw [encode_eq_front,
    flipBit_append_right (by simp; omega)]
  simp

/- A flip outside the length field leaves the length. -/
theorem extractPayloadLen_flipBit
    {record : Record}
    (hFits : record.Fits)
    {position : Nat}
    (hPosition : position < 120 ∨ 152 ≤ position) :
    extractPayloadLen (flipBit record.encode position) =
      record.payload.length := by
  have hLt := length_lt_of_fits hFits
  have hEncode :
      record.encode =
        (record.frameFront ++ record.bodyFront) ++
          (beBytes 4 record.payload.length ++
            record.payload) := by
    rw [encode_eq_front, body_eq_front hFits,
      List.append_assoc]
  rw [hEncode]
  rcases hPosition with hBefore | hAfter
  · rw [flipBit_append_left (by simp; omega)]
    exact extractPayloadLen_append (by simp) hLt _
  · rw [flipBit_append_right (by simp; omega),
      flipBit_append_right (by simp; omega)]
    exact extractPayloadLen_append (by simp) hLt _

/- Outside the length field the checksum tells. -/
theorem decode_flipBit_outside
    {record : Record}
    (hFits : record.Fits)
    {position : Nat}
    (hPosition : position < 8 * record.encode.length)
    (hOutside : position < 120 ∨ 152 ≤ position) :
    decode (flipBit record.encode position) = none := by
  rw [Option.eq_none_iff_forall_not_mem]
  intro other hDecode
  have hLength :
      other.payload.length = record.payload.length := by
    rw [← (decodedFrom_of_decode hDecode).payloadLen_eq]
    exact extractPayloadLen_flipBit hFits hOutside
  have hEncode :
      other.encode = flipBit record.encode position := by
    rw [encode_eq_take_of_decode hDecode, hLength,
      ← length_encode, ← length_flipBit record.encode
        position, List.take_length]
  by_cases hFront : position < 40
  · rw [flipBit_encode_frameFront hFront,
      encode_eq_front] at hEncode
    have hParts := List.append_inj hEncode (by simp)
    have hSame : other.frameFront = record.frameFront := by
      simp only [frameFront, hParts.2]
    rw [hSame] at hParts
    exact flipBit_ne (by simp; omega) hParts.1.symm
  · rw [flipBit_encode_body (by omega)] at hEncode
    have hParts := checksum_eq_of_encode_eq hEncode
    rw [hParts.1] at hParts
    refine crc32_flipBit_ne ?_ hParts.2
    rw [length_encode, headerSize] at hPosition
    rw [length_body]
    omega

theorem cut_fits
    {record : Record}
    (hFits : record.Fits)
    (size : Nat) :
    (record.cut size).Fits := by
  have hLe : record.payload.length ≤ maxPayloadSize := hFits
  simp only [Fits, cut, List.length_take]
  omega

/- The frame with another number in the length field. -/
theorem flipBit_encode_length
    {record : Record}
    (hFits : record.Fits)
    {bit : Nat}
    (hBit : bit < 32) :
    flipBit record.encode
        (8 * (18 - bit / 8) + bit % 8) =
      record.frameFront ++ (record.bodyFront ++
        (beBytes 4 (record.payload.length ^^^ 2 ^ bit) ++
          record.payload)) := by
  have hInside :
      8 * (18 - bit / 8) + bit % 8 - 40 -
          8 * record.bodyFront.length =
        8 * (3 - bit / 8) + bit % 8 := by
    rw [length_bodyFront]
    omega
  have hWeight :
      8 * (4 - 1 - (8 * (3 - bit / 8) + bit % 8) / 8) +
          (8 * (3 - bit / 8) + bit % 8) % 8 =
        bit := by
    omega
  rw [flipBit_encode_body (by omega), body_eq_front hFits,
    flipBit_append_right (by simp; omega), hInside,
    flipBit_append_left (by simp; omega),
    flipBit_beBytes (by omega), hWeight]

/- A frame that promises more than it holds is torn. -/
theorem decode_flipBit_grown
    {record : Record}
    (hFits : record.Fits)
    {bit : Nat}
    (hBit : bit < 32)
    (hClear : record.payload.length.testBit bit = false) :
    decode
        (flipBit record.encode
          (8 * (18 - bit / 8) + bit % 8)) =
      none := by
  rw [Option.eq_none_iff_forall_not_mem]
  intro other hDecode
  have hFrom := decodedFrom_of_decode hDecode
  have hLength := hFrom.length_le
  have hPayloadLen := hFrom.payloadLen_eq
  have hGrown := lt_xor_two_pow_of_testBit hClear
  have hLt :
      record.payload.length ^^^ 2 ^ bit < 2 ^ 32 :=
    Nat.xor_lt_two_pow (length_lt_of_fits hFits)
      (Nat.pow_lt_pow_right (by decide) hBit)
  rw [flipBit_encode_length hFits hBit, ← List.append_assoc,
    extractPayloadLen_append (by simp) hLt] at hPayloadLen
  rw [length_flipBit, length_encode] at hLength
  omega

/- A shortened frame holds the cut record. -/
theorem decode_flipBit_cut
    {record : Record}
    (hFits : record.Fits)
    {bit : Nat}
    (hBit : bit < 32)
    (hSet : record.payload.length.testBit bit = true) :
    decode
          (flipBit record.encode
            (8 * (18 - bit / 8) + bit % 8)) =
        none ↔
      crc32
          (record.cut
            (record.payload.length - 2 ^ bit)).body ≠
        crc32 record.body := by
  generalize hSize :
    record.payload.length - 2 ^ bit = size
  have hLe : size ≤ record.payload.length := by
    rw [← hSize]
    exact Nat.sub_le _ _
  have hCut : (record.cut size).payload.length = size := by
    simp [cut, hLe]
  have hLt := length_lt_of_fits hFits
  have hFlip :
      flipBit record.encode
          (8 * (18 - bit / 8) + bit % 8) =
        record.frameFront ++ (record.cut size).body ++
          record.payload.drop size := by
    rw [flipBit_encode_length hFits hBit,
      xor_two_pow_of_testBit hSet, hSize,
      body_eq_front (cut_fits hFits size), hCut]
    simp [cut, bodyFront]
  rw [hFlip]
  constructor
  · intro hNone hEq
    have hFrame :
        (record.cut size).encode =
          record.frameFront ++ (record.cut size).body := by
      rw [encode_eq_front, frameFront, frameFront, hEq]
    rw [← hFrame,
      decode_encode_append (cut_fits hFits size)] at hNone
    simp at hNone
  · intro hNe
    rw [Option.eq_none_iff_forall_not_mem]
    intro other hDecode
    have hPayloadLen :=
      (decodedFrom_of_decode hDecode).payloadLen_eq
    have hEncode := encode_eq_take_of_decode hDecode
    have hAssoc :
        record.frameFront ++ (record.cut size).body ++
            record.payload.drop size =
          (record.frameFront ++
              (record.cut size).bodyFront) ++
            (beBytes 4 size ++
              ((record.cut size).payload ++
                record.payload.drop size)) := by
      rw [body_eq_front (cut_fits hFits size), hCut]
      simp
    rw [hAssoc, extractPayloadLen_append (by simp)
      (by omega)] at hPayloadLen
    have hFront :
        headerSize + other.payload.length =
          (record.frameFront ++
            (record.cut size).body).length := by
      rw [List.length_append, length_frameFront,
        length_body, hCut, ← hPayloadLen, headerSize]
      omega
    rw [hFront, List.take_left] at hEncode
    have hParts := checksum_eq_of_encode_eq hEncode
    rw [hParts.1] at hParts
    exact hNe hParts.2

/-
  A flipped bit is noticed except where it shortens the
  frame to one with the same checksum.
-/
theorem decode_flipBit_eq_none_iff
    {record : Record}
    (hFits : record.Fits)
    {position : Nat}
    (hPosition : position < 8 * record.encode.length) :
    decode (flipBit record.encode position) = none ↔
      ¬ record.HidesFlip position := by
  by_cases hOutside : position < 120 ∨ 152 ≤ position
  · have hNot : ¬ record.HidesFlip position := by
      rintro ⟨bit, hBit, hAt, _, _⟩
      omega
    simp only [hNot, not_false_eq_true, iff_true]
    exact decode_flipBit_outside hFits hPosition hOutside
  · -- The bit of the length that the position stands for.
    obtain ⟨bit, hBit, rfl⟩ :
        ∃ bit, bit < 32 ∧
          position = 8 * (18 - bit / 8) + bit % 8 := by
      refine ⟨8 * (18 - position / 8) + position % 8, ?_, ?_⟩
        <;> omega
    cases hValue : record.payload.length.testBit bit with
    | false =>
        have hNot :
            ¬ record.HidesFlip
              (8 * (18 - bit / 8) + bit % 8) := by
          rintro ⟨other, hOther, hAt, hSet, _⟩
          have hSame : other = bit := by omega
          rw [hSame, hValue] at hSet
          simp at hSet
        simp only [hNot, not_false_eq_true, iff_true]
        exact decode_flipBit_grown hFits hBit hValue
    | true =>
        rw [decode_flipBit_cut hFits hBit hValue, not_iff_not]
        constructor
        · intro hEq
          exact ⟨bit, hBit, rfl, hValue, hEq⟩
        · rintro ⟨other, hOther, hAt, _, hEq⟩
          have hSame : other = bit := by omega
          rwa [hSame] at hEq

/- No bit of this frame can be flipped unnoticed. -/
theorem decode_flipBit_letter :
    decode
        (flipBit
          (encode
            { id := 1
              opType := .created
              priority := 128
              payload := [65] })
          144) =
      none :=
  (decode_flipBit_eq_none_iff
      (by decide)
      (by rw [length_encode]; decide)).mpr <| by
    rintro ⟨bit, hBit, hAt, _, hEq⟩
    have hZero : bit = 0 := by omega
    subst hZero
    revert hEq
    decide +kernel

/-
  The four payload bytes undo what the length field adds to
  the checksum, so clearing that length leaves a valid frame
  of an empty payload.
-/
theorem decode_flipBit_cut_frame :
    ¬ ∀ record : Record,
        record.Fits →
        ∀ position,
          position < 8 * record.encode.length →
          decode (flipBit record.encode position) = none := by
  intro hAll
  have hNone :=
    hAll
      { id := 1
        opType := .created
        priority := 128
        payload := [214, 233, 4, 185] }
      (by decide)
      146
      (by rw [length_encode]; decide)
  revert hNone
  decide +kernel

end Record

end Nesso
