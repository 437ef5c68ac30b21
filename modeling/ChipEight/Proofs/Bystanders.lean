import ChipEight.Machine.Action
import ChipEight.Proofs.Stepping

/-!
# Fields that most instructions pass by

Five fields of a machine stand beside the flow of a program.  No instruction looks at the name
of the program or at the opcode that was fetched last; three instructions are about the
countdowns, and one draws from the random stream.  Whatever is done to these fields, every
other instruction does the same as before, and so does the step around it.

* `Machine.Aside`, `Machine.aside` — a change to some of these fields;
* `Machine.effect_aside` — an instruction that does not see the change carries it along;
* `Machine.steps_aside`, `Machine.step_aside` — and so does a step that executes it;
* `Machine.act_aside` — the same for everything that a host does;
* `Machine.labelled`, `Machine.named` — the changes that no instruction sees, and no operation
  of a host either apart from a load with a name.

A change may also forget what was in a field before.  Then the same statements say that the
field is left alone.
-/

namespace ChipEight

namespace Instruction

/-- The instructions that read or write a countdown. -/
def usesTimers : Instruction Register → Bool
  | .readDelay _ | .setDelay _ | .setSound _ => true
  | _ => false

/-- The instruction that draws a random byte. -/
def drawsByte : Instruction Register → Bool
  | .random _ _ => true
  | _ => false

end Instruction

namespace Machine

/-- A change to the fields beside the flow of a program. -/
structure Aside where
  name : String → String := id
  opcode : Opcode → Opcode := id
  delay : Countdown → Countdown := id
  sound : Countdown → Countdown := id
  entropy : Entropy → Entropy := id

/-- The machine with these fields changed. -/
def aside (machine : Machine) (change : Aside) : Machine :=
  { machine with
    name := change.name machine.name
    opcode := change.opcode machine.opcode
    delay := change.delay machine.delay
    sound := change.sound machine.sound
    entropy := change.entropy machine.entropy }

/-- The instruction does not look at the fields that change. -/
structure Aside.Unseen (change : Aside) (instruction : Instruction Register) : Prop where
  timers : instruction.usesTimers = true → change.delay = id ∧ change.sound = id
  entropy : instruction.drawsByte = true → change.entropy = id

end Machine

/-- The same effect with these fields changed. -/
def Effect.aside (done : Effect) (change : Machine.Aside) : Effect :=
  { done with machine := done.machine.aside change }

namespace Machine

/-! ## One instruction -/

/-- An instruction that does not see a change does the same after it, and carries it along. -/
theorem effect_aside (machine : Machine) {change : Aside} {instruction : Instruction Register}
    (hUnseen : change.Unseen instruction) :
    (machine.aside change).effect instruction =
      (machine.effect instruction).map (Effect.aside · change) := by
  cases instruction with
  | ret =>
    have hSame : (machine.aside change).stack = machine.stack := rfl
    cases hStack : machine.stack with
    | nil => rw [effect_ret_of_nil hStack, effect_ret_of_nil (hSame.trans hStack)]; rfl
    | cons latest earlier =>
      rw [effect_ret_of_cons hStack, effect_ret_of_cons (hSame.trans hStack)]
      rfl
  | call address =>
    have hSame : (machine.aside change).stack.length = machine.stack.length := rfl
    by_cases hRoom : machine.stack.length < stackLimit
    · rw [effect_call_of_room address hRoom, effect_call_of_room address (hSame ▸ hRoom)]
      rfl
    · have hFull : stackLimit ≤ machine.stack.length := Nat.not_lt.mp hRoom
      rw [effect_call_of_full address hFull, effect_call_of_full address (hSame ▸ hFull)]
      rfl
  | awaitKey x =>
    have hSame : (machine.aside change).heldPress = machine.heldPress := rfl
    show Except.ok ((machine.aside change).awaitKey x) =
      .ok ((machine.awaitKey x).aside change)
    cases hHeld : machine.heldPress with
    | none =>
      rw [awaitKey_of_no_heldPress x hHeld, awaitKey_of_no_heldPress x (hSame.trans hHeld)]
      rfl
    | some key =>
      rw [awaitKey_of_heldPress x hHeld, awaitKey_of_heldPress x (hSame.trans hHeld)]
      rfl
  | arith op x y => cases op <;> rfl
  | readDelay | setDelay | setSound =>
    obtain ⟨name, opcode, delay, sound, entropy⟩ := change
    obtain ⟨rfl, rfl⟩ := hUnseen.timers rfl
    rfl
  | random x mask =>
    obtain ⟨name, opcode, delay, sound, entropy⟩ := change
    obtain rfl := hUnseen.entropy rfl
    rfl
  | _ => rfl

theorem execute_aside (machine : Machine) {change : Aside} {instruction : Instruction Register}
    (hUnseen : change.Unseen instruction) :
    (machine.aside change).execute instruction =
      (machine.execute instruction).map fun done => (done.1, done.2.aside change) := by
  simp only [execute, machine.effect_aside hUnseen]
  cases machine.effect instruction with
  | error fault => rfl
  | ok done => rfl

/-! ## One step -/

/-- The next step executes the instruction, which may fail. -/
def Executes (machine : Machine) (instruction : Instruction Register) : Prop :=
  ∃ opcode, machine.Fetches opcode ∧ Instruction.decode? opcode = some instruction

theorem ready_aside (machine : Machine) (change : Aside) :
    (machine.aside change).Ready ↔ machine.Ready :=
  ⟨fun hReady => ⟨hReady.fault, hReady.awaiting⟩, fun hReady => ⟨hReady.fault, hReady.awaiting⟩⟩

theorem fetches_aside {machine : Machine} {opcode : Opcode} (hFetches : machine.Fetches opcode)
    (change : Aside) : (machine.aside change).Fetches opcode :=
  ⟨(machine.ready_aside change).mpr hFetches.toReady, hFetches.inside, hFetches.word⟩

/-- Whatever step a machine takes, it takes the same one after a change that the instruction of
the step does not see.  The step records an opcode itself, so that one may not change. -/
theorem steps_aside {machine next : Machine} {result : Except Fault Outcome} {change : Aside}
    (hOpcode : change.opcode = id)
    (hUnseen : ∀ instruction, machine.Executes instruction → change.Unseen instruction)
    (hSteps : machine.Steps result next) :
    (machine.aside change).Steps result (next.aside change) := by
  have hRecording (opcode : Opcode) :
      (machine.recording opcode).aside change = (machine.aside change).recording opcode := by
    simp only [recording, aside, hOpcode, id]
  cases hSteps with
  | halted hFault => exact .halted hFault
  | waiting hFault hAwaiting hLatch => exact .waiting hFault hAwaiting hLatch
  | resumed hFault hAwaiting hLatch => exact .resumed hFault hAwaiting hLatch
  | outside hReady hOutside =>
    exact .outside ((machine.ready_aside change).mpr hReady) hOutside
  | @unknown opcode hFetches hDecode =>
    have hNext : ((machine.recording opcode).advance .next).aside change =
        ((machine.aside change).recording opcode).advance .next :=
      congrArg (Machine.advance · .next) (hRecording opcode)
    rw [hNext]
    exact .unknown (fetches_aside hFetches change) hDecode
  | @failed opcode instruction fault hFetches hDecode hEffect =>
    have hSame := (machine.recording opcode).effect_aside
      (hUnseen instruction ⟨opcode, hFetches, hDecode⟩)
    have hNext : Machine.aside { machine.recording opcode with fault := some fault } change =
        { (machine.aside change).recording opcode with fault := some fault } :=
      congrArg (fun recorded : Machine => { recorded with fault := some fault })
        (hRecording opcode)
    rw [hRecording, hEffect] at hSame
    rw [hNext]
    exact .failed (fetches_aside hFetches change) hDecode hSame
  | @executed opcode instruction done hFetches hDecode hEffect =>
    have hSame := (machine.recording opcode).effect_aside
      (hUnseen instruction ⟨opcode, hFetches, hDecode⟩)
    rw [hRecording, hEffect] at hSame
    exact .executed (fetches_aside hFetches change) hDecode hSame

theorem step_aside (machine : Machine) {change : Aside} (hOpcode : change.opcode = id)
    (hUnseen : ∀ instruction, machine.Executes instruction → change.Unseen instruction) :
    (machine.aside change).step = (machine.step.1, machine.step.2.aside change) :=
  step_of_steps (steps_aside hOpcode hUnseen machine.steps_step)

/-! ## Operations of the host -/

/-- The operation neither looks at the fields that change nor sets them to something that would
have changed. -/
def Aside.Passes (change : Aside) (machine : Machine) : Action → Prop
  | .step => ∀ instruction, machine.Executes instruction → change.Unseen instruction
  | .execute instruction => change.Unseen instruction
  | .loadProgram _ => change.name = id
  | .tick =>
    (∀ timer, change.delay timer.tick = (change.delay timer).tick) ∧
      ∀ timer, change.sound timer.tick = (change.sound timer).tick
  | .reset =>
    change.delay Countdown.zero = Countdown.zero ∧ change.sound Countdown.zero = Countdown.zero
  | .load _ | .setKey _ _ | .setKeys _ | .takeRedraw => True

/-- Such an operation gives the same answer after the change, and carries it along. -/
theorem act_aside (machine : Machine) {change : Aside} (hOpcode : change.opcode = id)
    {action : Action} (hPasses : change.Passes machine action) :
    (machine.aside change).act action =
      ((machine.act action).1, (machine.act action).2.aside change) := by
  cases action with
  | load bytes =>
    simp only [act, load]
    split <;> rfl
  | loadProgram program =>
    obtain ⟨name, opcode, delay, sound, entropy⟩ := change
    obtain rfl : name = id := hPasses
    by_cases hTooLong : Program.capacity < program.bytes.length
    · simp only [act, loadProgram, load, hTooLong, if_true, loaded]
    · simp only [act, loadProgram, load, hTooLong, if_false, loaded]
      rfl
  | reset =>
    obtain ⟨hDelay, hSound⟩ := hPasses
    simp only [act, reset, aside, hOpcode, hDelay, hSound, id]
  | step => simp only [act, machine.step_aside hOpcode hPasses]
  | tick =>
    obtain ⟨hDelay, hSound⟩ := hPasses
    simp only [act, tick, aside, hDelay, hSound]
  | execute instruction =>
    simp only [act, machine.execute_aside hPasses]
    cases machine.execute instruction <;> rfl
  | setKeys levels => simp only [act, setKeys, aside]
  | setKey | takeRedraw => rfl

/-! ## Labels -/

/-- The machine with another program name and another opcode fetched last. -/
def labelled (machine : Machine) (name : String) (opcode : Opcode) : Machine :=
  { machine with name := name, opcode := opcode }

end Machine

/-- The same effect on a machine under other labels. -/
def Effect.labelled (done : Effect) (name : String) (opcode : Opcode) : Effect :=
  { done with machine := done.machine.labelled name opcode }

namespace Machine

/-- An instruction does the same under all labels, and leaves them as they are. -/
theorem effect_labelled (machine : Machine) (name : String) (opcode : Opcode)
    (instruction : Instruction Register) :
    (machine.labelled name opcode).effect instruction =
      (machine.effect instruction).map (Effect.labelled · name opcode) := by
  have hUnseen : Aside.Unseen { name := fun _ => name, opcode := fun _ => opcode } instruction :=
    ⟨fun _ => ⟨rfl, rfl⟩, fun _ => rfl⟩
  exact machine.effect_aside hUnseen

/-- The machine with another program name. -/
def named (machine : Machine) (name : String) : Machine := { machine with name := name }

/-- No operation looks at the name.  A load with a name may replace it. -/
theorem act_named (machine : Machine) (name : String) (action : Action) :
    ∃ later, (machine.named name).act action =
      ((machine.act action).1, (machine.act action).2.named later) := by
  have hUnseen (instruction : Instruction Register) :
      Aside.Unseen { name := fun _ => name } instruction :=
    ⟨fun _ => ⟨rfl, rfl⟩, fun _ => rfl⟩
  have hAside (action : Action) (hPasses : Aside.Passes { name := fun _ => name } machine action) :
      ∃ later, (machine.named name).act action =
        ((machine.act action).1, (machine.act action).2.named later) :=
    ⟨name, machine.act_aside rfl hPasses⟩
  cases action with
  | loadProgram program =>
    by_cases hTooLong : Program.capacity < program.bytes.length
    · refine ⟨name, ?_⟩
      simp only [act, loadProgram, load, hTooLong, if_true, loaded]
    · refine ⟨program.name, ?_⟩
      simp only [act, loadProgram, load, hTooLong, if_false, loaded]
      rfl
  | step => exact hAside _ fun instruction _ => hUnseen instruction
  | execute instruction => exact hAside _ (hUnseen instruction)
  | tick => exact hAside _ ⟨fun _ => rfl, fun _ => rfl⟩
  | reset => exact hAside _ ⟨rfl, rfl⟩
  | load | setKey | setKeys | takeRedraw => exact hAside _ trivial

end Machine
end ChipEight
