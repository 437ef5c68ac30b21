import ChipEight.Listing.Row
import ChipEight.Machine.Basic

/-!
# The listing of a machine

A text that shows the machine section by section: the name of the program, the
opcode fetched last, the counter, the index register, the countdowns, the memory,
the keys, the saved return addresses and the registers.

The return addresses are listed from the first one saved, and zeros stand for the
places that are free.
-/

namespace ChipEight
namespace Listing

structure Section where
  title : List Char
  rows : List (List Char)

namespace Section

def titled (title : String) (rows : List (List Char)) : Section := ⟨title.toList, rows⟩

/-- A section with a single number. -/
def ofNumber (title : String) (value : Nat) : Section :=
  titled title [Numeral.markedHex 4 value]

/-- The line of a row, indented under the title. -/
def rowLine (row : List Char) : List Char := '\t' :: '\t' :: row ++ ['\n']

def text (part : Section) : List Char :=
  '\t' :: part.title ++ [' ', ':', '\n'] ++ part.rows.flatMap rowLine

end Section

end Listing

namespace Machine

open Listing

/-- The places for return addresses from the first one saved, with zeros for the
free ones. -/
def stackPlaces (machine : Machine) : List UInt16 :=
  machine.stack.reverse ++ List.replicate (stackLimit - machine.stack.length) 0

def sections (machine : Machine) : List Section :=
  [Section.titled "Program Name" [machine.name.toList],
   Section.ofNumber "Opcode" machine.opcode.toNat,
   Section.ofNumber "Program Counter" machine.counter.toNat,
   Section.ofNumber "Index Register" machine.index.toNat,
   Section.ofNumber "Delay Timer" machine.delay.value.toNat,
   Section.ofNumber "Sound Timer" machine.sound.value.toNat,
   Section.titled "Memory" ((memoryRows machine.memory.toList).map MemoryRow.text),
   Section.titled "Keyboard" (levelRows machine.keypad.levels.toList),
   Section.titled "Stack" (numberRows (machine.stackPlaces.map UInt16.toNat)),
   Section.titled "Register" (numberRows (machine.registers.toList.map UInt8.toNat))]

def listing (machine : Machine) : String :=
  String.ofList ("Chipset \x7b\n".toList ++ machine.sections.flatMap Section.text ++ ['\x7d'])

end Machine
end ChipEight
