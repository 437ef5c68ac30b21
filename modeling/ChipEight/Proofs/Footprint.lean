import ChipEight.Proofs.Stepping

/-!
# The footprint of an instruction

Most instructions leave most of the machine alone.  This module says so for the fields
that a host shares with the machine: the screen, the bit that says it has to be shown, the
keypad and the key wait.

* `Instruction.draws`, `Instruction.takesKey` — the instructions that change the screen,
  and the one that uses the latched press;
* `Effect.Footprint`, `Machine.footprint_of_effect` — what every other instruction leaves
  alone;
* `Machine.act_load`, `Machine.act_loadProgram` — what a load changes.
-/

namespace ChipEight

namespace Instruction

/-- The two instructions that change the screen. -/
def draws : Instruction Register → Bool
  | .clear | .draw _ _ _ => true
  | _ => false

/-- The instruction that uses the latched press. -/
def takesKey : Instruction Register → Bool
  | .awaitKey _ => true
  | _ => false

theorem takesKey_iff {instruction : Instruction Register} :
    instruction.takesKey = true ↔ ∃ x, instruction = .awaitKey x := by
  cases instruction <;> simp [takesKey]

end Instruction

/-- What an instruction leaves alone of the fields that a host shares with the machine. -/
structure Effect.Footprint (machine : Machine) (instruction : Instruction Register)
    (done : Effect) : Prop where
  /-- The bit is set by the cycle around the instruction, which asks for the signal. -/
  redraw : done.machine.redraw = machine.redraw
  signal : decide (done.signal = .draw) = instruction.draws
  screen : instruction.draws = false → done.machine.screen = machine.screen
  keypad : instruction.takesKey = false → done.machine.keypad = machine.keypad
  awaiting : instruction.takesKey = false → done.machine.awaiting = machine.awaiting
  goesOn : instruction.takesKey = false → decide (done.signal = .wait) = false

namespace Machine

/-- Every executed instruction keeps to its footprint. -/
theorem footprint_of_effect {machine : Machine} {instruction : Instruction Register}
    {done : Effect} (hEffect : machine.effect instruction = .ok done) :
    Effect.Footprint machine instruction done := by
  cases instruction with
  | clear | draw =>
    cases hEffect
    exact ⟨rfl, rfl, Bool.noConfusion, fun _ => rfl, fun _ => rfl, fun _ => rfl⟩
  | ret =>
    obtain ⟨latest, earlier, -, rfl⟩ := effect_ret_eq_ok_iff.mp hEffect
    exact ⟨rfl, rfl, fun _ => rfl, fun _ => rfl, fun _ => rfl, fun _ => rfl⟩
  | call address =>
    obtain ⟨-, rfl⟩ := effect_call_eq_ok_iff.mp hEffect
    exact ⟨rfl, rfl, fun _ => rfl, fun _ => rfl, fun _ => rfl, fun _ => rfl⟩
  | awaitKey x =>
    rcases effect_awaitKey_eq_ok_iff.mp hEffect with ⟨key, -, rfl⟩ | ⟨-, rfl⟩ <;>
      exact ⟨rfl, rfl, fun _ => rfl, Bool.noConfusion, Bool.noConfusion, Bool.noConfusion⟩
  | arith op x y =>
    cases hEffect
    cases op <;> exact ⟨rfl, rfl, fun _ => rfl, fun _ => rfl, fun _ => rfl, fun _ => rfl⟩
  | _ =>
    cases hEffect
    exact ⟨rfl, rfl, fun _ => rfl, fun _ => rfl, fun _ => rfl, fun _ => rfl⟩

/-- A load changes the memory at most. -/
theorem act_load (machine : Machine) (bytes : List UInt8) :
    ∃ memory, (machine.act (.load bytes)).2 = { machine with memory := memory } := by
  simp only [act, load]
  split
  · exact ⟨machine.memory, rfl⟩
  · exact ⟨_, rfl⟩

/-- A load with a name changes the memory and the name at most. -/
theorem act_loadProgram (machine : Machine) (program : Program) :
    ∃ memory name,
      (machine.act (.loadProgram program)).2 =
        { machine with memory := memory, name := name } := by
  simp only [act, loadProgram, load]
  by_cases hTooLong : Program.capacity < program.bytes.length
  · simp only [hTooLong, if_true]
    exact ⟨machine.memory, machine.name, rfl⟩
  · simp only [hTooLong, if_false]
    exact ⟨_, _, rfl⟩

end Machine
end ChipEight
