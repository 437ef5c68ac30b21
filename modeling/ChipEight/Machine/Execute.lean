import ChipEight.Instruction.Arith
import ChipEight.Machine.Basic

/-!
# Executing one instruction

`Machine.effect` says what an instruction does to the machine apart from the
program counter, how the counter moves, and what the host should know.
`Machine.execute` applies the move as well.  Only a call and a return can fail, and
then nothing changes.
-/

namespace ChipEight

/-- What the host should know after an instruction. -/
inductive Signal where
  | proceed
  /-- The machine waits for a key press. -/
  | wait
  /-- The screen was drawn on. -/
  | draw
deriving DecidableEq

/-- What an instruction does. -/
structure Effect where
  /-- The machine with everything but the program counter updated. -/
  machine : Machine
  step : CounterStep
  signal : Signal

namespace Effect

/-- The effect of an instruction that the host need not know of. -/
def quiet (machine : Machine) (step : CounterStep) : Except Fault Effect :=
  .ok ⟨machine, step, .proceed⟩

end Effect

namespace Machine

def value (machine : Machine) (x : Register) : UInt8 := machine.registers.get x

def setValue (machine : Machine) (x : Register) (value : UInt8) : Machine :=
  { machine with registers := machine.registers.set x value }

/-- Combines two registers.  The flag is written last, so it wins where the flag
register is also the target. -/
def combine (machine : Machine) (op : ArithOp) (x y : Register) : Machine :=
  let computed := op.eval (machine.value x) (machine.value y)
  -- both operands were read above, so the order of the two writes is all that matters
  let target := machine.setValue x computed.1
  match computed.2 with
  | some flag => target.setValue Register.flag flag.toUInt8
  | none => target

/-- Puts a random byte under a mask into a register.  A byte is drawn whatever the
mask is. -/
def randomize (machine : Machine) (x : Register) (mask : UInt8) : Machine :=
  let drawn := machine.entropy.draw
  { machine with
    registers := machine.registers.set x (drawn.1 &&& mask)
    entropy := drawn.2 }

/-- Draws the sprite that the index register points at, at the coordinates in two
registers, and puts the collision into the flag register. -/
def drawSprite (machine : Machine) (x y : Register) (height : UInt8) : Machine :=
  let rows := machine.memory.readAll machine.index.toNat height.toNat
  let drawn := machine.screen.draw (machine.value x).toNat (machine.value y).toNat rows
  { machine with
    screen := drawn.2
    registers := machine.registers.set Register.flag drawn.1.toUInt8 }

/-- Takes the latched press for a register if its key is still down, and begins to
wait for a press otherwise.  What was latched is forgotten either way. -/
def awaitKey (machine : Machine) (x : Register) : Effect :=
  let taken := machine.keypad.takeLatch
  let unlatched := { machine with keypad := taken.2 }
  match taken.1.filter fun key => taken.2.isPressed key.val with
  | some key => ⟨unlatched.setValue x (UInt8.ofNat key.val), .next, .proceed⟩
  | none => ⟨{ unlatched with awaiting := some x }, .stay, .wait⟩

/-- The decimal digits of a byte: hundreds, tens and units. -/
def decimalDigits (value : UInt8) : List UInt8 :=
  [value / 100, value / 10 % 10, value % 10]

/-- What an instruction does to the machine. -/
def effect (machine : Machine) : Instruction Register → Except Fault Effect
  | .clear => .ok ⟨{ machine with screen := Screen.blank }, .next, .draw⟩
  | .ret =>
    match machine.stack with
    | [] => .error .stackEmpty
    | latest :: earlier => Effect.quiet { machine with stack := earlier } (.jump latest)
  | .jump address => Effect.quiet machine (.jump address)
  | .call address =>
    if machine.stack.length < stackLimit then
      Effect.quiet
        { machine with stack := CounterStep.next.apply machine.counter :: machine.stack }
        (.jump address)
    else .error .stackFull
  | .skipEqual x constant =>
    Effect.quiet machine (.skipIf (decide (machine.value x = constant)))
  | .skipNotEqual x constant =>
    Effect.quiet machine (.skipIf (decide (machine.value x ≠ constant)))
  | .skipSame x y =>
    Effect.quiet machine (.skipIf (decide (machine.value x = machine.value y)))
  | .set x constant => Effect.quiet (machine.setValue x constant) .next
  | .add x constant => Effect.quiet (machine.setValue x (machine.value x + constant)) .next
  | .arith op x y => Effect.quiet (machine.combine op x y) .next
  | .skipDifferent x y =>
    Effect.quiet machine (.skipIf (decide (machine.value x ≠ machine.value y)))
  | .setIndex address => Effect.quiet { machine with index := address } .next
  | .jumpOffset address =>
    Effect.quiet machine (.jump (address + (machine.value Register.first).toUInt16))
  | .random x mask => Effect.quiet (machine.randomize x mask) .next
  | .draw x y height => .ok ⟨machine.drawSprite x y height, .next, .draw⟩
  | .skipPressed x =>
    Effect.quiet machine (.skipIf (machine.keypad.isPressed (machine.value x).toNat))
  | .skipReleased x =>
    Effect.quiet machine (.skipIf (!machine.keypad.isPressed (machine.value x).toNat))
  | .readDelay x => Effect.quiet (machine.setValue x machine.delay.value) .next
  | .awaitKey x => .ok (machine.awaitKey x)
  | .setDelay x => Effect.quiet { machine with delay := ⟨machine.value x⟩ } .next
  | .setSound x => Effect.quiet { machine with sound := ⟨machine.value x⟩ } .next
  | .addIndex x =>
    Effect.quiet { machine with index := machine.index + (machine.value x).toUInt16 } .next
  | .pointGlyph x =>
    Effect.quiet { machine with index := Glyphs.location (machine.value x) } .next
  | .storeDecimal x =>
    Effect.quiet
      { machine with
        memory := machine.memory.writeAll machine.index.toNat
          (decimalDigits (machine.value x)) }
      .next
  | .storeFront x =>
    Effect.quiet
      { machine with
        memory := machine.memory.writeAll machine.index.toNat (machine.registers.upTo x) }
      .next
  | .loadFront x =>
    Effect.quiet
      { machine with
        registers := machine.registers.setFront
          (machine.memory.readAll machine.index.toNat (x.val + 1)) }
      .next

/-- Executes an instruction: its effect, and then the move of the program counter. -/
def execute (machine : Machine) (instruction : Instruction Register) :
    Except Fault (Signal × Machine) :=
  match machine.effect instruction with
  | .ok done => .ok (done.signal, done.machine.advance done.step)
  | .error fault => .error fault

end Machine
end ChipEight
