/-!
# The built-in glyphs

The pictures of the sixteen hexadecimal digits, five sprite rows each.  They lie
at the very start of the memory, so that the glyph of a digit begins at five times
the digit.
-/

namespace ChipEight
namespace Glyphs

/-- The rows of all glyphs, from `0` to `F`. -/
def bytes : List UInt8 :=
  [0xF0, 0x90, 0x90, 0x90, 0xF0,
   0x20, 0x60, 0x20, 0x20, 0x70,
   0xF0, 0x10, 0xF0, 0x80, 0xF0,
   0xF0, 0x10, 0xF0, 0x10, 0xF0,
   0x90, 0x90, 0xF0, 0x10, 0x10,
   0xF0, 0x80, 0xF0, 0x10, 0xF0,
   0xF0, 0x80, 0xF0, 0x90, 0xF0,
   0xF0, 0x10, 0x20, 0x40, 0x40,
   0xF0, 0x90, 0xF0, 0x90, 0xF0,
   0xF0, 0x90, 0xF0, 0x10, 0xF0,
   0xF0, 0x90, 0xF0, 0x90, 0x90,
   0xE0, 0x90, 0xE0, 0x90, 0xE0,
   0xF0, 0x80, 0x80, 0x80, 0xF0,
   0xE0, 0x90, 0x90, 0x90, 0xE0,
   0xF0, 0x80, 0xF0, 0x80, 0xF0,
   0xF0, 0x80, 0xF0, 0x80, 0x80]

def start : Nat := 0

/-- Where the glyph of a value starts; values that are no digit point past the
glyphs. -/
def location (value : UInt8) : UInt16 := UInt16.ofNat (start + 5 * value.toNat)

end Glyphs
end ChipEight
