import ChipEight.Countdown
import ChipEight.CounterStep
import ChipEight.Entropy
import ChipEight.Glyphs
import ChipEight.Keypad
import ChipEight.Memory
import ChipEight.Program
import ChipEight.Screen

/-!
# The machine

The whole state of the machine, its state after power-on, and what a host does to
it between instructions.

* `Machine.reset` forgets everything except the name of the program, the levels of
  the keys and the random stream.
* `Machine.load` places a program in memory, or refuses one that is too long and
  changes nothing.
* `Machine.tick` counts both countdowns down by one.
* `Machine.takeRedraw` asks whether the screen changed since it was last asked.
-/

namespace ChipEight

/-- The state of the machine. -/
structure Machine where
  name : String
  /-- The opcode that was fetched last. -/
  opcode : Opcode
  /-- The memory, with the glyphs at its start and programs from `0x200` on. -/
  memory : Memory
  registers : Registers
  /-- The index register, which points into memory. -/
  index : UInt16
  counter : UInt16
  /-- The saved return addresses, the latest first. -/
  stack : List UInt16
  /-- The countdown that programs read. -/
  delay : Countdown
  /-- The countdown that sounds a tone while it runs. -/
  sound : Countdown
  screen : Screen
  /-- Whether the screen changed since the host last asked. -/
  redraw : Bool
  keypad : Keypad
  /-- The register that a key press is awaited for. -/
  awaiting : Option Register
  fault : Option Fault
  entropy : Entropy

namespace Machine

/-- The number of return addresses that can be saved. -/
def stackLimit : Nat := 16

/-- The memory after power-on: the glyphs, and zeros everywhere else. -/
def initialMemory : Memory := Memory.zero.writeAll Glyphs.start Glyphs.bytes

/-- The machine after power-on, with what a reset leaves alone given. -/
def powerOn (name : String) (levels : Levels) (entropy : Entropy) : Machine where
  name := name
  opcode := 0
  memory := initialMemory
  registers := Registers.zero
  index := 0
  counter := UInt16.ofNat Program.start
  stack := []
  delay := Countdown.zero
  sound := Countdown.zero
  screen := Screen.blank
  redraw := true
  keypad := ⟨levels, none⟩
  awaiting := none
  fault := none
  entropy := entropy

/-- A new machine: no program, all keys up. -/
def fresh (entropy : Entropy) : Machine := powerOn "" Levels.released entropy

/-- Brings the machine back to its state after power-on.  The machine is set back in place:
what is not mentioned here survives. -/
def reset (machine : Machine) : Machine :=
  { machine with
    opcode := 0
    memory := initialMemory
    registers := Registers.zero
    index := 0
    counter := UInt16.ofNat Program.start
    stack := []
    delay := Countdown.zero
    sound := Countdown.zero
    screen := Screen.blank
    -- the host should show the cleared screen
    redraw := true
    keypad := machine.keypad.clearLatch
    awaiting := none
    fault := none }

/-- Copies a program's bytes into memory; a program that does not fit is refused. -/
def load (machine : Machine) (bytes : List UInt8) : Except ProgramTooLarge Machine :=
  if Program.capacity < bytes.length then .error ⟨bytes.length, Program.capacity⟩
  else .ok { machine with memory := machine.memory.writeAll Program.start bytes }

/-- Loads a program and takes over its name. -/
def loadProgram (machine : Machine) (program : Program) : Except ProgramTooLarge Machine :=
  match machine.load program.bytes with
  | .ok loaded => .ok { loaded with name := program.name }
  | .error problem => .error problem

/-- Counts both countdowns down by one. -/
def tick (machine : Machine) : Machine :=
  { machine with delay := machine.delay.tick, sound := machine.sound.tick }

/-- Reports the level of one key. -/
def setKey (machine : Machine) (key : Nat) (down : Bool) : Machine :=
  { machine with keypad := machine.keypad.set key down }

/-- Reports the levels of all keys at once. -/
def setKeys (machine : Machine) (levels : Levels) : Machine :=
  { machine with keypad := machine.keypad.setAll levels }

/-- Whether the screen changed since this was last asked. -/
def takeRedraw (machine : Machine) : Bool × Machine :=
  (machine.redraw, { machine with redraw := false })

/-- A tone sounds as long as the sound countdown runs. -/
def isSounding (machine : Machine) : Bool := machine.sound.isRunning

def advance (machine : Machine) (step : CounterStep) : Machine :=
  { machine with counter := step.apply machine.counter }

end Machine
end ChipEight
