import Nesso.Storage.Record

/-
  The checksum that `crc32fast` computes: CRC-32 with the
  reflected IEEE 802.3 polynomial.

  Key definitions include:
    * `crc32`
-/

------------------------------------------------------------
-- CRC-32
------------------------------------------------------------

namespace Nesso

/- Shift one byte into the register, bit by bit. -/
def crcByte (register : UInt32) (byte : UInt8) : UInt32 :=
  (List.range 8).foldl
    (fun register _ =>
      if register &&& 1 = 1 then
        (register >>> 1) ^^^ 0xEDB88320
      else
        register >>> 1)
    (register ^^^ byte.toUInt32)

def crc32 (bytes : Bytes) : UInt32 :=
  (bytes.foldl crcByte 0xFFFFFFFF) ^^^ 0xFFFFFFFF

/- The check value of the algorithm, for "123456789". -/
example :
    crc32 [49, 50, 51, 52, 53, 54, 55, 56, 57] =
      0xCBF43926 := by
  decide +kernel

instance : Hasher where
  checksum := crc32

end Nesso
