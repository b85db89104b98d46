import Mathlib

/-
  Big-endian byte strings of a fixed width.

  Key definitions include:
    * `beBytes`
    * `ofBeBytes`

  Reading back is described by:
    * `ofBeBytes_beBytes`
    * `beBytes_ofBeBytes`
-/

------------------------------------------------------------
-- Big-Endian Numerals
------------------------------------------------------------

/- The low `width` bytes of `n`, most significant first. -/
def beBytes : Nat → Nat → List UInt8
| 0, _ => []
| width + 1, n =>
    UInt8.ofNat (n / 256 ^ width) :: beBytes width n

/- The number a big-endian byte string denotes. -/
def ofBeBytes : List UInt8 → Nat
| [] => 0
| byte :: bytes =>
    byte.toNat * 256 ^ bytes.length + ofBeBytes bytes

/- A big-endian string has exactly its declared width. -/
@[simp] theorem length_beBytes
    (width n : Nat) :
    (beBytes width n).length = width := by
  induction width with
  | zero => rfl
  | succ width ih => simp [beBytes, ih]

/- Reading back a numeral reduces it modulo its width. -/
theorem ofBeBytes_beBytes
    (width n : Nat) :
    ofBeBytes (beBytes width n) = n % 256 ^ width := by
  induction width with
  | zero => simp [beBytes, ofBeBytes, Nat.mod_one]
  | succ width ih =>
      have hHead :
          (UInt8.ofNat (n / 256 ^ width)).toNat =
            n / 256 ^ width % 256 := by
        simp
      rw [beBytes, ofBeBytes, length_beBytes, ih, hHead,
        Nat.mod_pow_succ]
      ring

theorem ofBeBytes_lt
    (bytes : List UInt8) :
    ofBeBytes bytes < 256 ^ bytes.length := by
  induction bytes with
  | nil => simp [ofBeBytes]
  | cons byte bytes ih =>
      have hByte : byte.toNat + 1 ≤ 256 := byte.toNat_lt
      have hScaled :
          (byte.toNat + 1) * 256 ^ bytes.length ≤
            256 * 256 ^ bytes.length :=
        Nat.mul_le_mul_right _ hByte
      rw [ofBeBytes, List.length_cons, Nat.pow_succ']
      rw [Nat.add_mul, Nat.one_mul] at hScaled
      omega

/- Strings of one width that denote one number are equal. -/
theorem ofBeBytes_inj
    {left right : List UInt8}
    (hLength : left.length = right.length)
    (hEq : ofBeBytes left = ofBeBytes right) :
    left = right := by
  induction left generalizing right with
  | nil =>
      exact (List.length_eq_zero_iff.mp hLength.symm).symm
  | cons byte left ih =>
      cases right with
      | nil => simp at hLength
      | cons other right =>
          have hTail : left.length = right.length := by
            simpa using hLength
          have hLeft := ofBeBytes_lt left
          have hRight := ofBeBytes_lt right
          simp only [ofBeBytes, hTail] at hEq hLeft
          have hRest : ofBeBytes left = ofBeBytes right := by
            have hMod := congrArg
              (· % 256 ^ right.length) hEq
            simpa [Nat.mod_eq_of_lt hLeft,
              Nat.mod_eq_of_lt hRight] using hMod
          have hHead : byte.toNat = other.toNat := by
            have hSame :
                byte.toNat * 256 ^ right.length =
                  other.toNat * 256 ^ right.length := by
              omega
            exact Nat.eq_of_mul_eq_mul_right
              (Nat.pow_pos (by decide)) hSame
          rw [UInt8.toNat_inj.mp hHead, ih hTail hRest]

/- Writing a number that was read gives its bytes back. -/
theorem beBytes_ofBeBytes
    {bytes : List UInt8}
    {width : Nat}
    (hLength : bytes.length = width) :
    beBytes width (ofBeBytes bytes) = bytes := by
  have hLt := ofBeBytes_lt bytes
  rw [hLength] at hLt
  apply ofBeBytes_inj
  · simp [hLength]
  · rw [ofBeBytes_beBytes, Nat.mod_eq_of_lt hLt]
