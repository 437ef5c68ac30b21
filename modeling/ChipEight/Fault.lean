import ChipEight.Numeral

/-!
# Faults

The conditions that halt the machine for good, until it is reset, and the text
that reports each of them.
-/

namespace ChipEight

/-- A condition that halts the machine. -/
inductive Fault where
  /-- A call was made while every place for a return address was taken. -/
  | stackFull
  /-- A return was made while no return address was saved. -/
  | stackEmpty
  /-- No whole opcode starts at `pointer` in a memory of `size` bytes. -/
  | noOpcodeAt (pointer size : Nat)
deriving DecidableEq

namespace Fault

/-- The report of a fault. -/
def message : Fault → String
  | .stackFull => "Invalid stack state 'Stack is full!'."
  | .stackEmpty => "Invalid stack state 'Stack is empty!'."
  | .noOpcodeAt pointer size =>
      "Pointer location invalid there can not be an opcode at "
        ++ String.ofList (Numeral.markedHex 4 pointer)
        ++ ", if memory len is " ++ String.ofList (Numeral.markedHex 4 size)

end Fault
end ChipEight
