import ChipEight.Machine.Cycle

/-!
# What a host does to the machine

The operations of a host as data, with the answer that each of them gives, and
whole sequences of them.
-/

namespace ChipEight
namespace Machine

/-- An operation of the host on the machine.  Executing an instruction that was not
fetched is one as well. -/
inductive Action where
  | load (bytes : List UInt8)
  | loadProgram (program : Program)
  | reset
  | step
  | tick
  | setKey (key : Nat) (down : Bool)
  | setKeys (levels : Levels)
  | takeRedraw
  | execute (instruction : Instruction Register)

inductive Reply where
  | done
  | tooLarge (problem : ProgramTooLarge)
  | stepped (result : Except Fault Outcome)
  | redraw (changed : Bool)
  | executed (result : Except Fault Signal)

/-- The machine after a load, which stays as it was if the load was refused. -/
def loaded (machine : Machine) : Except ProgramTooLarge Machine → Reply × Machine
  | .ok next => (.done, next)
  | .error problem => (.tooLarge problem, machine)

/-- The answer to an operation and the machine after it. -/
def act (machine : Machine) : Action → Reply × Machine
  | .load bytes => machine.loaded (machine.load bytes)
  | .loadProgram program => machine.loaded (machine.loadProgram program)
  | .reset => (.done, machine.reset)
  | .step =>
    let stepped := machine.step
    (.stepped stepped.1, stepped.2)
  | .tick => (.done, machine.tick)
  | .setKey key down => (.done, machine.setKey key down)
  | .setKeys levels => (.done, machine.setKeys levels)
  | .takeRedraw =>
    let taken := machine.takeRedraw
    (.redraw taken.1, taken.2)
  | .execute instruction =>
    match machine.execute instruction with
    | .ok (signal, next) => (.executed (.ok signal), next)
    | .error fault => (.executed (.error fault), machine)

/-- The answers to a sequence of operations, in order, and the machine after it. -/
def run (machine : Machine) : List Action → List Reply × Machine
  | [] => ([], machine)
  | action :: actions =>
    let first := machine.act action
    let rest := first.2.run actions
    (first.1 :: rest.1, rest.2)

/-- A sequence is performed by performing its parts one after the other. -/
theorem run_append (machine : Machine) (first second : List Action) :
    machine.run (first ++ second) =
      ((machine.run first).1 ++ ((machine.run first).2.run second).1,
        ((machine.run first).2.run second).2) := by
  induction first generalizing machine with
  | nil => rfl
  | cons action actions ih => simp only [List.cons_append, run, ih]

end Machine
end ChipEight
