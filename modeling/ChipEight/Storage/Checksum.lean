/-!
# The checksum of archived bytes

The checksum that the ZIP format prescribes, CRC-32: the 32-bit cyclic redundancy check with
the reflected polynomial `0xEDB88320`.  It starts from all ones, takes in the bytes one after the
other with the lowest bit first, and is inverted at the end.
-/

namespace ChipEight
namespace Storage
namespace Checksum

/-- Moves the register on by one bit: the division step of the check, with the lowest bit as the
leading one. -/
def shift (register : UInt32) : UInt32 :=
  if register % 2 = 1 then (register / 2) ^^^ 0xEDB88320 else register / 2

/-- Moves the register on by several bits. -/
def shifts : Nat → UInt32 → UInt32
  | 0, register => register
  | count + 1, register => shifts count (shift register)

/-- Takes one byte in, as the check has it: the byte is added to the low end of the register,
which then moves on by eight bits. -/
def take (register : UInt32) (byte : UInt8) : UInt32 :=
  shifts 8 (register ^^^ byte.toUInt32)

/-- The checksum of a sequence of bytes, with the start value and the inversion that CRC-32
prescribes. -/
def ofBytes (bytes : List UInt8) : UInt32 :=
  bytes.foldl take 0xFFFFFFFF ^^^ 0xFFFFFFFF

end Checksum
end Storage
end ChipEight
