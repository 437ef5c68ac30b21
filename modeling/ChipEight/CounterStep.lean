/-!
# Steps of the program counter

What an instruction does to the program counter.  An opcode takes two bytes, so
going on adds two and passing over the following opcode adds four; the counter is
a 16-bit word and wraps around.
-/

namespace ChipEight

/-- The way the program counter moves. -/
inductive CounterStep where
  | stay
  /-- On to the following opcode. -/
  | next
  /-- Past the following opcode. -/
  | skip
  | jump (target : UInt16)
deriving DecidableEq

namespace CounterStep

/-- Passes over the following opcode exactly if the condition holds. -/
def skipIf (condition : Bool) : CounterStep :=
  if condition then .skip else .next

/-- The counter after the step. -/
def apply (pointer : UInt16) : CounterStep → UInt16
  | .stay => pointer
  | .next => pointer + 2
  | .skip => pointer + 4
  | .jump target => target

end CounterStep
end ChipEight
