import ChipEight.Fault
import ChipEight.Register

/-!
# Opcodes

An opcode is a 16-bit word.  Its four hexadecimal digits are, from the left, the
group, the register `X`, the register `Y` and a small constant; the last two
digits together form a byte constant and the last three an address.  In memory
the high byte comes first.
-/

namespace ChipEight

/-- A 16-bit instruction word. -/
abbrev Opcode := UInt16

namespace Opcode

/-- The group of an opcode, its first digit. -/
def group (opcode : Opcode) : Nat := opcode.toNat / 0x1000

/-- The address operand, the last three digits. -/
def address (opcode : Opcode) : UInt16 := opcode % 0x1000

/-- The first register operand, the second digit. -/
def x (opcode : Opcode) : Register := ⟨opcode.toNat / 0x100 % 16, by omega⟩

/-- The second register operand, the third digit. -/
def y (opcode : Opcode) : Register := ⟨opcode.toNat / 0x10 % 16, by omega⟩

/-- The byte constant, the last two digits. -/
def constant (opcode : Opcode) : UInt8 := opcode.toUInt8

/-- The small constant, the last digit. -/
def lastDigit (opcode : Opcode) : UInt8 := opcode.toUInt8 % 0x10

/-- The opcode with the given high and low byte. -/
def ofBytes (high low : UInt8) : Opcode := high.toUInt16 * 0x100 + low.toUInt16

/-- The opcode that starts at `pointer`; both of its bytes have to be there. -/
def fetch (bytes : Array UInt8) (pointer : Nat) : Except Fault Opcode :=
  match bytes[pointer]?, bytes[pointer + 1]? with
  | some high, some low => .ok (ofBytes high low)
  | _, _ => .error (.noOpcodeAt pointer bytes.size)

/-- An opcode is fetched where both of its bytes are inside. -/
theorem fetch_of_lt {bytes : Array UInt8} {pointer : Nat}
    (hInside : pointer + 1 < bytes.size) :
    fetch bytes pointer = .ok (ofBytes bytes[pointer] bytes[pointer + 1]) := by
  simp [fetch, Array.getElem?_eq_getElem hInside,
    Array.getElem?_eq_getElem (Nat.lt_of_succ_lt hInside)]

/-- Everywhere else fetching reports the pointer and the size of the memory. -/
theorem fetch_of_le {bytes : Array UInt8} {pointer : Nat}
    (hOutside : bytes.size ≤ pointer + 1) :
    fetch bytes pointer = .error (.noOpcodeAt pointer bytes.size) := by
  simp [fetch, Array.getElem?_eq_none hOutside]

end Opcode
end ChipEight
