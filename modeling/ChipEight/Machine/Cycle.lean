import ChipEight.Instruction.Decode
import ChipEight.Machine.Execute

/-!
# One cycle of the machine

`Machine.step` advances the machine by one instruction.  A machine that was halted
by a fault reports that fault again.  A machine that waits for a key goes on once a
press is latched.  Otherwise the opcode at the program counter is fetched, recorded
and executed; an opcode that stands for no instruction is passed over.
-/

namespace ChipEight

/-- What a cycle did. -/
inductive Outcome where
  /-- An instruction was executed, or a key wait ended. -/
  | advanced
  /-- The machine waits for a key press. -/
  | blocked
  /-- The opcode stands for no instruction and was passed over. -/
  | unknown (opcode : Opcode)
deriving DecidableEq

namespace Machine

/-- Halts the machine with a fault. -/
def halt (machine : Machine) (fault : Fault) : Except Fault Outcome × Machine :=
  (.error fault, { machine with fault := some fault })

/-- Ends a key wait for a register if a press is latched. -/
def resume (machine : Machine) (x : Register) : Outcome × Machine :=
  let taken := machine.keypad.takeLatch
  let unlatched := { machine with keypad := taken.2 }
  match taken.1 with
  | some key =>
    let stored := unlatched.setValue x (UInt8.ofNat key.val)
    (.advanced, { stored with awaiting := none }.advance .next)
  | none => (.blocked, unlatched)

/-- Executes a decoded instruction as a part of a cycle: a fault halts the machine,
and a draw is remembered until the host asks for it. -/
def perform (machine : Machine) (instruction : Instruction Register) :
    Except Fault Outcome × Machine :=
  match machine.execute instruction with
  | .error fault => machine.halt fault
  | .ok (.proceed, next) => (.ok .advanced, next)
  | .ok (.draw, next) => (.ok .advanced, { next with redraw := true })
  | .ok (.wait, next) => (.ok .blocked, next)

/-- Runs the opcode at the program counter. -/
def cycle (machine : Machine) : Except Fault Outcome × Machine :=
  match machine.memory.fetch machine.counter.toNat with
  | .error fault => machine.halt fault
  | .ok opcode =>
    -- recorded before it is executed, so that it also shows what halted the machine
    let fetched := { machine with opcode := opcode }
    match Instruction.decode opcode with
    | .error problem => (.ok (.unknown problem.opcode), fetched.advance .next)
    | .ok instruction => fetched.perform instruction

/-- Advances the machine by one instruction. -/
def step (machine : Machine) : Except Fault Outcome × Machine :=
  match machine.fault with
  | some fault => (.error fault, machine)
  | none =>
    match machine.awaiting with
    | some x =>
      let resumed := machine.resume x
      (.ok resumed.1, resumed.2)
    | none => machine.cycle

end Machine
end ChipEight
