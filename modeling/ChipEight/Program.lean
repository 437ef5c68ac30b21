import ChipEight.Numeral

/-!
# Programs

A program is its raw bytes under a name.  It is loaded at `0x200` and may fill the
memory from there to the end.
-/

namespace ChipEight

structure Program where
  /-- The name that the machine shows for it. -/
  name : String
  /-- The bytes as they are loaded. -/
  bytes : List UInt8
deriving DecidableEq

namespace Program

/-- Where a program starts in memory. -/
def start : Nat := 0x200

/-- The bytes that fit between the start of a program and the end of the memory. -/
def capacity : Nat := 3584

end Program

/-- The report that a program does not fit. -/
structure ProgramTooLarge where
  /-- The bytes of the program. -/
  size : Nat
  /-- The bytes that would have fit. -/
  max : Nat
deriving DecidableEq

namespace ProgramTooLarge

def message (problem : ProgramTooLarge) : String :=
  "The program is " ++ String.ofList (Numeral.decimal problem.size)
    ++ " bytes long, but only " ++ String.ofList (Numeral.decimal problem.max)
    ++ " bytes fit into memory."

end ProgramTooLarge
end ChipEight
