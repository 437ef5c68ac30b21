/-!
# The pace of the host

How fast the host runs the machine: instructions for each second and frames for
each second.  The countdowns tick once in every frame.  A rate of zero frames is
taken as one, and a frame always has room for at least one instruction.

A host keeps both rates in 64 bits and the cycles of a frame in a machine word.  The words of the
host are taken to have 64 bits, so that the quotient of two rates fits into one.  Nothing here is
larger than a rate or than the nanoseconds of a second, so plain numbers say the same.
-/

namespace ChipEight

/-- The speeds of the machine and of its countdowns, both for one second.  Every 64-bit number is
a rate; larger ones do not occur on a host. -/
structure Pace where
  /-- Instructions in a second. -/
  cpuHertz : Nat
  /-- Frames in a second. -/
  timerHertz : Nat
deriving DecidableEq

namespace Pace

/-- The usual pace: 500 instructions and 60 frames in a second. -/
def usual : Pace := ⟨500, 60⟩

/-- The frames that a second is divided into. -/
def frameRate (pace : Pace) : Nat := max pace.timerHertz 1

/-- The cycles that belong to one frame.  The quotient is turned into a machine word, which loses
nothing where a word has 64 bits. -/
def cyclesPerFrame (pace : Pace) : Nat := max (pace.cpuHertz / pace.frameRate) 1

/-- The length of one frame in nanoseconds. -/
def frameNanoseconds (pace : Pace) : Nat := 1000000000 / pace.frameRate

theorem cyclesPerFrame_pos (pace : Pace) : 0 < pace.cyclesPerFrame := by
  unfold cyclesPerFrame
  omega

end Pace
end ChipEight
