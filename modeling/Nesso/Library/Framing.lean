import Mathlib

/-
  Scanning a byte stream of self-delimiting frames.

  A parser reads one frame from the front of its input and
  reports how many symbols the frame occupies, together with
  the record it decodes to, if any.  `scan` collects the
  decodable records with their offsets; `validLength` stops at
  the first frame that does not decode.

  Key definitions include:
    * `Framing.Parser`
    * `Framing.scan`
    * `Framing.validLength`
    * `Framing.encodeAll`
    * `Framing.located`
    * `Framing.Codec`

  The scanning theorems are:
    * `Framing.Codec.scan_encodeAll_append`
    * `Framing.Codec.validLength_encodeAll_append`
    * `Framing.Codec.take_encodeAll_eq`
    * `Framing.Codec.Exact.split`
-/

------------------------------------------------------------
-- Frame Parsers
------------------------------------------------------------

namespace Framing

/-
  A frame parser never reports an empty frame and never
  reads past its input, so scanning terminates.
-/
structure Parser (β ρ : Type) where
  parse : List β → Option (Nat × Option ρ)
  parse_pos :
    ∀ {input size result},
      parse input = some (size, result) → 0 < size
  parse_le :
    ∀ {input size result},
      parse input = some (size, result) →
        size ≤ input.length

variable {β ρ : Type}

/- The decodable records of a stream with their offsets. -/
def scan
    (P : Parser β ρ)
    (offset : Nat)
    (input : List β) :
    List (Nat × ρ) :=
  match hParse : P.parse input with
  | none => []
  | some (size, none) =>
      scan P (offset + size) (input.drop size)
  | some (size, some record) =>
      (offset, record) ::
        scan P (offset + size) (input.drop size)
termination_by input.length
decreasing_by
  all_goals
    have hPos := P.parse_pos hParse
    have hLe := P.parse_le hParse
    rw [List.length_drop]
    omega

/- Symbols before the first frame that does not decode. -/
def validLength
    (P : Parser β ρ)
    (input : List β) : Nat :=
  match hParse : P.parse input with
  | none => 0
  | some (_, none) => 0
  | some (size, some _) =>
      size + validLength P (input.drop size)
termination_by input.length
decreasing_by
  have hPos := P.parse_pos hParse
  have hLe := P.parse_le hParse
  rw [List.length_drop]
  omega

/- No frame starts at the end of a stream. -/
theorem Parser.parse_nil
    (P : Parser β ρ) :
    P.parse [] = none := by
  cases hParse : P.parse [] with
  | none => rfl
  | some frame =>
      have hPos := P.parse_pos hParse
      have hLe := P.parse_le hParse
      simp only [List.length_nil] at hLe
      omega

/- A stream that does not start with a frame is empty. -/
theorem scan_eq_nil
    {P : Parser β ρ}
    {input : List β}
    (hParse : P.parse input = none)
    (offset : Nat) :
    scan P offset input = [] := by
  rw [scan]
  split
  · rfl
  · simp_all
  · simp_all

/- A decodable first frame is reported at the offset. -/
theorem scan_eq_cons
    {P : Parser β ρ}
    {input : List β}
    {size : Nat}
    {record : ρ}
    (hParse : P.parse input = some (size, some record))
    (offset : Nat) :
    scan P offset input =
      (offset, record) ::
        scan P (offset + size) (input.drop size) := by
  rw [scan]
  split
  · simp_all
  · simp_all
  · simp_all

/- A frame that does not decode is skipped. -/
theorem scan_eq_skip
    {P : Parser β ρ}
    {input : List β}
    {size : Nat}
    (hParse : P.parse input = some (size, none))
    (offset : Nat) :
    scan P offset input =
      scan P (offset + size) (input.drop size) := by
  rw [scan]
  split
  · simp_all
  · simp_all
  · simp_all

/- A reported record parses at the reported offset. -/
theorem parse_of_mem_scan
    {P : Parser β ρ}
    {offset : Nat}
    {input : List β}
    {entry : Nat × ρ}
    (hEntry : entry ∈ scan P offset input) :
    ∃ skipped size,
      entry.1 = offset + skipped ∧
        P.parse (input.drop skipped) =
          some (size, some entry.2) := by
  induction hLength : input.length using Nat.strong_induction_on
    generalizing offset input with
  | h length ih =>
      cases hParse : P.parse input with
      | none => simp [scan_eq_nil hParse] at hEntry
      | some frame =>
          rcases frame with ⟨size, result⟩
          have hPos := P.parse_pos hParse
          have hLe := P.parse_le hParse
          have hRest :
              entry ∈ scan P (offset + size)
                  (input.drop size) →
                ∃ skipped size,
                  entry.1 = offset + skipped ∧
                    P.parse (input.drop skipped) =
                      some (size, some entry.2) := by
            intro hMem
            rcases ih (input.drop size).length
              (by simp only [List.length_drop]; omega) hMem
              rfl with ⟨skipped, found, hOffset, hFound⟩
            refine ⟨size + skipped, found, by omega, ?_⟩
            simpa [List.drop_drop] using hFound
          cases result with
          | none =>
              rw [scan_eq_skip hParse] at hEntry
              exact hRest hEntry
          | some record =>
              rw [scan_eq_cons hParse] at hEntry
              rcases List.mem_cons.mp hEntry with hEq | hMem
              · exact ⟨0, size, by simp [hEq],
                  by simpa [hEq] using hParse⟩
              · exact hRest hMem

/- Records are reported with increasing offsets. -/
theorem scan_pairwise_lt
    (P : Parser β ρ)
    (offset : Nat)
    (input : List β) :
    (scan P offset input).Pairwise
      (fun left right => left.1 < right.1) := by
  induction hLength : input.length using Nat.strong_induction_on
    generalizing offset input with
  | h length ih =>
      cases hParse : P.parse input with
      | none => simp [scan_eq_nil hParse]
      | some frame =>
          rcases frame with ⟨size, result⟩
          have hPos := P.parse_pos hParse
          have hLe := P.parse_le hParse
          have hRest :=
            ih (input.drop size).length
              (by simp only [List.length_drop]; omega)
              (offset + size) (input.drop size) rfl
          cases result with
          | none =>
              rw [scan_eq_skip hParse]
              exact hRest
          | some record =>
              rw [scan_eq_cons hParse, List.pairwise_cons]
              refine ⟨?_, hRest⟩
              intro entry hEntry
              rcases parse_of_mem_scan hEntry with
                ⟨skipped, _, hOffset, _⟩
              simp only
              omega

/- Nothing is valid when no frame decodes. -/
theorem validLength_eq_zero_of_stop
    {P : Parser β ρ}
    {input : List β}
    (hStop :
      ∀ size record,
        P.parse input ≠ some (size, some record)) :
    validLength P input = 0 := by
  rw [validLength]
  split
  · rfl
  · rfl
  · next size record hParse =>
      exact (hStop size record hParse).elim

theorem validLength_eq_zero
    {P : Parser β ρ}
    {input : List β}
    (hParse : P.parse input = none) :
    validLength P input = 0 := by
  apply validLength_eq_zero_of_stop
  simp [hParse]

/- A decodable first frame counts as valid. -/
theorem validLength_eq_add
    {P : Parser β ρ}
    {input : List β}
    {size : Nat}
    {record : ρ}
    (hParse : P.parse input = some (size, some record)) :
    validLength P input =
      size + validLength P (input.drop size) := by
  rw [validLength]
  split
  · simp_all
  · simp_all
  · simp_all

end Framing

------------------------------------------------------------
-- Encoded Streams
------------------------------------------------------------

namespace Framing

variable {β ρ : Type}

/- The concatenated frames of a record list. -/
def encodeAll
    (encode : ρ → List β)
    (records : List ρ) : List β :=
  records.flatMap encode

/- Each record with the offset at which its frame starts. -/
def located
    (encode : ρ → List β) :
    Nat → List ρ → List (Nat × ρ)
| _, [] => []
| offset, record :: records =>
    (offset, record) ::
      located encode
        (offset + (encode record).length) records

@[simp] theorem encodeAll_nil
    (encode : ρ → List β) :
    encodeAll encode [] = [] := rfl

@[simp] theorem encodeAll_cons
    (encode : ρ → List β)
    (record : ρ)
    (records : List ρ) :
    encodeAll encode (record :: records) =
      encode record ++ encodeAll encode records := by
  simp [encodeAll]

@[simp] theorem encodeAll_append
    (encode : ρ → List β)
    (left right : List ρ) :
    encodeAll encode (left ++ right) =
      encodeAll encode left ++ encodeAll encode right := by
  simp [encodeAll]

/- Locating forgets to the record list itself. -/
@[simp] theorem map_snd_located
    (encode : ρ → List β)
    (offset : Nat)
    (records : List ρ) :
    (located encode offset records).map Prod.snd =
      records := by
  induction records generalizing offset with
  | nil => rfl
  | cons record records ih => simp [located, ih]

/- Later records are located behind the earlier frames. -/
theorem located_append
    (encode : ρ → List β)
    (offset : Nat)
    (left right : List ρ) :
    located encode offset (left ++ right) =
      located encode offset left ++
        located encode
          (offset + (encodeAll encode left).length)
          right := by
  induction left generalizing offset with
  | nil => simp [located]
  | cons record left ih =>
      simp [located, ih, Nat.add_assoc]

/- An offset is the length of the frames before it. -/
theorem mem_located_iff
    {encode : ρ → List β}
    {base offset : Nat}
    {record : ρ}
    {records : List ρ} :
    (offset, record) ∈ located encode base records ↔
      ∃ front back,
        records = front ++ record :: back ∧
          offset =
            base + (encodeAll encode front).length := by
  constructor
  · intro hMem
    induction records generalizing base with
    | nil => simp [located] at hMem
    | cons head records ih =>
        simp only [located, List.mem_cons,
          Prod.mk.injEq] at hMem
        rcases hMem with ⟨rfl, rfl⟩ | hMem
        · exact ⟨[], records, rfl, by simp⟩
        · rcases ih hMem with
            ⟨front, back, hRecords, hOffset⟩
          refine ⟨head :: front, back, ?_, ?_⟩
          · simp [hRecords]
          · simp [hOffset, Nat.add_assoc]
  · rintro ⟨front, back, rfl, rfl⟩
    rw [located_append]
    simp [located]

/- No record is located before the starting offset. -/
theorem le_of_mem_located
    {encode : ρ → List β}
    {offset : Nat}
    {records : List ρ}
    {entry : Nat × ρ}
    (hEntry : entry ∈ located encode offset records) :
    offset ≤ entry.1 := by
  induction records generalizing offset with
  | nil => simp [located] at hEntry
  | cons record records ih =>
      simp only [located, List.mem_cons] at hEntry
      rcases hEntry with rfl | hEntry
      · exact Nat.le_refl _
      · have hLe := ih hEntry
        omega

/- A located frame ends inside the encoded stream. -/
theorem add_length_le_of_mem_located
    {encode : ρ → List β}
    {offset : Nat}
    {records : List ρ}
    {entry : Nat × ρ}
    (hEntry : entry ∈ located encode offset records) :
    entry.1 + (encode entry.2).length ≤
      offset + (encodeAll encode records).length := by
  induction records generalizing offset with
  | nil => simp [located] at hEntry
  | cons record records ih =>
      simp only [located, List.mem_cons] at hEntry
      rcases hEntry with rfl | hEntry
      · simp only [encodeAll_cons, List.length_append]
        omega
      · have hLe := ih hEntry
        simp only [encodeAll_cons, List.length_append]
        omega

/- Offsets increase strictly when no frame is empty. -/
theorem located_pairwise_lt
    {encode : ρ → List β}
    (hPos : ∀ record, 0 < (encode record).length)
    (offset : Nat)
    (records : List ρ) :
    (located encode offset records).Pairwise
      (fun left right => left.1 < right.1) := by
  induction records generalizing offset with
  | nil => simp [located]
  | cons record records ih =>
      rw [located, List.pairwise_cons]
      refine ⟨?_, ih _⟩
      intro entry hEntry
      have hLe := le_of_mem_located hEntry
      have hRecord := hPos record
      dsimp only
      omega

end Framing

------------------------------------------------------------
-- Scanning Encoded Streams
------------------------------------------------------------

namespace Framing

variable {β ρ : Type}

/-
  A codec pairs a parser with an encoder it inverts on the
  admissible records: a whole frame parses to its record
  whatever follows, and a torn frame does not parse.
-/
structure Codec (β ρ : Type) extends Parser β ρ where
  encode : ρ → List β
  Admissible : ρ → Prop
  parse_encode_append :
    ∀ {record}, Admissible record →
      ∀ rest,
        parse (encode record ++ rest) =
          some ((encode record).length, some record)
  parse_torn :
    ∀ {record torn}, Admissible record →
      torn <+: encode record → torn ≠ encode record →
        parse torn = none

namespace Codec

variable {C : Codec β ρ}

/-
  Scanning admissible frames yields their records in order,
  and continues with whatever follows them.
-/
theorem scan_encodeAll_append
    {records : List ρ}
    (hRecords : ∀ record ∈ records, C.Admissible record)
    (offset : Nat)
    (rest : List β) :
    scan C.toParser offset
        (encodeAll C.encode records ++ rest) =
      located C.encode offset records ++
        scan C.toParser
          (offset + (encodeAll C.encode records).length)
          rest := by
  induction records generalizing offset with
  | nil => simp [located]
  | cons record records ih =>
      have hHead : C.Admissible record :=
        hRecords record (by simp)
      have hTail :
          ∀ item ∈ records, C.Admissible item := by
        intro item hItem
        exact hRecords item (by simp [hItem])
      rw [encodeAll_cons, List.append_assoc,
        scan_eq_cons (C.parse_encode_append hHead _),
        List.drop_left, ih hTail, located]
      simp [Nat.add_assoc]

/- A stream of admissible frames scans to its records. -/
theorem scan_encodeAll
    {records : List ρ}
    (hRecords : ∀ record ∈ records, C.Admissible record)
    (offset : Nat) :
    scan C.toParser offset
        (encodeAll C.encode records) =
      located C.encode offset records := by
  have hScan := scan_encodeAll_append hRecords offset []
  rwa [List.append_nil,
    scan_eq_nil (Parser.parse_nil _),
    List.append_nil] at hScan

/- Every admissible frame in front of a stream is valid. -/
theorem validLength_encodeAll_append
    {records : List ρ}
    (hRecords : ∀ record ∈ records, C.Admissible record)
    (rest : List β) :
    validLength C.toParser
        (encodeAll C.encode records ++ rest) =
      (encodeAll C.encode records).length +
        validLength C.toParser rest := by
  induction records with
  | nil => simp
  | cons record records ih =>
      have hHead : C.Admissible record :=
        hRecords record (by simp)
      have hTail :
          ∀ item ∈ records, C.Admissible item := by
        intro item hItem
        exact hRecords item (by simp [hItem])
      rw [encodeAll_cons, List.append_assoc,
        validLength_eq_add
          (C.parse_encode_append hHead _),
        List.drop_left, ih hTail]
      simp [Nat.add_assoc]

end Codec

end Framing

------------------------------------------------------------
-- Torn Streams
------------------------------------------------------------

namespace Framing

variable {β ρ : Type}

/- Records whose frames lie within the first `size` symbols. -/
def complete
    (encode : ρ → List β) :
    Nat → List ρ → List ρ
| _, [] => []
| size, record :: records =>
    if (encode record).length ≤ size then
      record ::
        complete encode
          (size - (encode record).length) records
    else
      []

/- The complete records are a prefix of all records. -/
theorem complete_prefix
    (encode : ρ → List β)
    (size : Nat)
    (records : List ρ) :
    complete encode size records <+: records := by
  induction records generalizing size with
  | nil => simp [complete]
  | cons record records ih =>
      rw [complete]
      split
      · exact (List.prefix_cons_inj record).mpr (ih _)
      · exact List.nil_prefix

/- The complete frames fit in the first `size` symbols. -/
theorem length_encodeAll_complete_le
    (encode : ρ → List β)
    (size : Nat)
    (records : List ρ) :
    (encodeAll encode
      (complete encode size records)).length ≤ size := by
  induction records generalizing size with
  | nil => simp [complete]
  | cons record records ih =>
      rw [complete]
      split
      · have hLe := ih (size - (encode record).length)
        simp only [encodeAll_cons, List.length_append]
        omega
      · simp

/- A prefix whose frames fit in `size` symbols is complete. -/
theorem prefix_complete_of_length_le
    {encode : ρ → List β}
    {size : Nat}
    {front records : List ρ}
    (hPrefix : front <+: records)
    (hFits : (encodeAll encode front).length ≤ size) :
    front <+: complete encode size records := by
  induction front generalizing size records with
  | nil => exact List.nil_prefix
  | cons record front ih =>
      rcases hPrefix with ⟨back, rfl⟩
      simp only [encodeAll_cons, List.length_append]
        at hFits
      rw [List.cons_append, complete,
        if_pos (by omega)]
      refine (List.prefix_cons_inj record).mpr ?_
      exact ih ⟨back, rfl⟩ (by omega)

namespace Codec

variable {C : Codec β ρ}

/-
  Cutting a stream of admissible frames anywhere leaves the
  complete frames followed by a tail that does not parse.
-/
theorem take_encodeAll_eq
    {records : List ρ}
    (hRecords : ∀ record ∈ records, C.Admissible record)
    (size : Nat) :
    ∃ torn,
      (encodeAll C.encode records).take size =
          encodeAll C.encode
            (complete C.encode size records) ++ torn ∧
        C.parse torn = none := by
  induction records generalizing size with
  | nil =>
      exact ⟨[], by simp [complete],
        Parser.parse_nil C.toParser⟩
  | cons record records ih =>
      have hHead : C.Admissible record :=
        hRecords record (by simp)
      have hTail :
          ∀ item ∈ records, C.Admissible item := by
        intro item hItem
        exact hRecords item (by simp [hItem])
      by_cases hFits : (C.encode record).length ≤ size
      · rcases ih hTail
            (size - (C.encode record).length) with
          ⟨torn, hTake, hTorn⟩
        refine ⟨torn, ?_, hTorn⟩
        rw [complete, if_pos hFits, encodeAll_cons,
          encodeAll_cons, List.take_append,
          List.take_of_length_le hFits, hTake,
          List.append_assoc]
      · -- The cut falls inside the first frame.
        have hShort : size < (C.encode record).length := by
          omega
        refine ⟨(C.encode record).take size, ?_, ?_⟩
        · rw [complete, if_neg hFits, encodeAll_cons,
            List.take_append_of_le_length (by omega)]
          simp
        · apply C.parse_torn hHead
            (List.take_prefix _ _)
          intro hEq
          have hLength := congrArg List.length hEq
          rw [List.length_take] at hLength
          omega

end Codec

end Framing

------------------------------------------------------------
-- Arbitrary Streams
------------------------------------------------------------

namespace Framing

variable {β ρ : Type}

namespace Codec

variable {C : Codec β ρ}

/- A frame decodes only to the record that it encodes. -/
def Exact (C : Codec β ρ) : Prop :=
  ∀ {input size record},
    C.parse input = some (size, some record) →
      C.Admissible record ∧
        input.take size = C.encode record

/-
  Any stream is a stream of admissible frames, and a rest
  that starts with no decodable frame.
-/
theorem Exact.split
    (hExact : C.Exact)
    (input : List β) :
    ∃ records rest,
      (∀ record ∈ records, C.Admissible record) ∧
        input = encodeAll C.encode records ++ rest ∧
        ∀ size record,
          C.parse rest ≠ some (size, some record) := by
  induction hLength : input.length
    using Nat.strong_induction_on generalizing input with
  | h length ih =>
      by_cases hStop :
          ∀ size record,
            C.parse input ≠ some (size, some record)
      · exact ⟨[], input, by simp, by simp, hStop⟩
      · push Not at hStop
        rcases hStop with ⟨size, record, hParse⟩
        have hPos := C.parse_pos hParse
        have hLe := C.parse_le hParse
        rcases hExact hParse with ⟨hHead, hTake⟩
        have hDrop :
            (input.drop size).length < length := by
          rw [List.length_drop]
          omega
        rcases ih _ hDrop (input.drop size) rfl with
          ⟨records, rest, hRecords, hRest, hEnd⟩
        refine ⟨record :: records, rest, ?_, ?_, hEnd⟩
        · intro item hItem
          rcases List.mem_cons.mp hItem with hEq | hTail
          · rw [hEq]
            exact hHead
          · exact hRecords item hTail
        · rw [encodeAll_cons, List.append_assoc, ← hRest,
            ← hTake, List.take_append_drop]

/- The frames in front of the first undecodable one. -/
theorem validLength_of_stop
    {records : List ρ}
    {rest : List β}
    (hRecords : ∀ record ∈ records, C.Admissible record)
    (hStop :
      ∀ size record,
        C.parse rest ≠ some (size, some record)) :
    validLength C.toParser
        (encodeAll C.encode records ++ rest) =
      (encodeAll C.encode records).length := by
  rw [validLength_encodeAll_append hRecords,
    validLength_eq_zero_of_stop hStop, Nat.add_zero]

end Codec

end Framing
