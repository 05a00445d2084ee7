/-!
The cyclic redundancy check of archives: a 32-bit remainder with reflected bits.
-/

namespace ClassEngine

namespace Crc32

/-- The generating polynomial, lowest power in the highest bit. -/
def polynomial : UInt32 := 0xEDB88320

/-- Shifts one bit out of the remainder. -/
def shift (c : UInt32) : UInt32 :=
  if c &&& 1 = 1 then (c >>> 1) ^^^ polynomial else c >>> 1

/-- Takes one byte into the remainder. -/
def update (c : UInt32) (b : UInt8) : UInt32 :=
  shift (shift (shift (shift (shift (shift (shift (shift (c ^^^ b.toUInt32))))))))

/-- The check value of bytes. -/
def checksum (bs : List UInt8) : UInt32 :=
  bs.foldl update 0xFFFFFFFF ^^^ 0xFFFFFFFF

end Crc32

end ClassEngine
