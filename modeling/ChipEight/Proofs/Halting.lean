import ChipEight.Proofs.Running

/-!
# Faults: when they happen, and what they leave behind

A machine that neither waits nor is halted meets a fault under exactly three
conditions, which can be read off its counter, the two bytes there and the stack.
A fault changes nothing but the record of it, and from then on the machine is stuck
with that fault until a host resets it.

* `Machine.FaultDue` — the three conditions;
* `Machine.haltedBy` — the machine that a fault leaves behind;
* `Machine.step_of_faultDue` and `Machine.faultDue_of_step` — the conditions are
  exact;
* `Machine.faults_exact_atomic_sticky` — all of it together.
-/

namespace ChipEight
namespace Machine

/-- The conditions under which the next step of a ready machine meets a fault. -/
def FaultDue (machine : Machine) : Fault → Prop
  | .noOpcodeAt pointer size =>
    4096 ≤ machine.counter.toNat + 1 ∧ pointer = machine.counter.toNat ∧ size = 4096
  | .stackEmpty =>
    machine.counter.toNat + 1 < 4096 ∧ machine.word = 0x00EE ∧ machine.stack = []
  | .stackFull =>
    machine.counter.toNat + 1 < 4096 ∧ machine.word / 0x1000 = 0x2 ∧
      machine.stack.length = stackLimit

/-- The machine that a fault leaves behind.  A fault of the stack is met after the
opcode was recorded, a fault of the fetch before. -/
def haltedBy (machine : Machine) (fault : Fault) : Machine :=
  { machine with
    opcode :=
      match fault with
      | .noOpcodeAt _ _ => machine.opcode
      | .stackEmpty | .stackFull => machine.upcoming
    fault := some fault }

/-- Under each of the conditions the step reports the fault and halts the machine. -/
theorem step_of_faultDue {machine : Machine} {fault : Fault} (hReady : machine.Ready)
    (hDue : machine.FaultDue fault) :
    machine.step = (.error fault, machine.haltedBy fault) := by
  apply step_of_steps
  cases fault with
  | noOpcodeAt pointer size =>
    obtain ⟨hOutside, rfl, rfl⟩ := hDue
    exact .outside hReady hOutside
  | stackEmpty =>
    obtain ⟨hInside, hWord, hStack⟩ := hDue
    have hEncode : Instruction.ret.encode = machine.upcoming.toNat :=
      (machine.toNat_upcoming.trans hWord).symm
    have hDecode : Instruction.decode? machine.upcoming = some .ret :=
      Instruction.decode?_of_encode trivial hEncode
    exact .failed (fetches_upcoming hReady hInside) hDecode
      (effect_eq_error_iff.mpr (Or.inl ⟨rfl, hStack, rfl⟩))
  | stackFull =>
    obtain ⟨hInside, hWord, hStack⟩ := hDue
    exact .failed (fetches_upcoming hReady hInside) (decode?_upcoming_call hWord)
      (effect_eq_error_iff.mpr (Or.inr ⟨⟨_, rfl⟩, Nat.le_of_eq hStack.symm, rfl⟩))

/-- A ready machine meets a fault under one of the conditions only. -/
theorem faultDue_of_step {machine : Machine} {fault : Fault} (hReady : machine.Ready)
    (hLength : machine.stack.length ≤ stackLimit) (hError : machine.step.1 = .error fault) :
    machine.FaultDue fault := by
  have hSteps := machine.steps_step
  rw [hError] at hSteps
  generalize machine.step.2 = next at hSteps
  cases hSteps with
  | halted hFault => exact absurd hFault (hReady.fault_ne fault)
  | outside hReady hOutside => exact ⟨hOutside, rfl, rfl⟩
  | failed hFetches hDecode hEffect =>
    -- the digits of the instruction that failed are those of the word at the counter
    obtain ⟨hFits, hEncode⟩ := Instruction.encode_of_decode? hDecode
    have hWord := hEncode.trans hFetches.word
    rcases effect_eq_error_iff.mp hEffect with
      ⟨rfl, hEmpty, rfl⟩ | ⟨⟨address, rfl⟩, hFull, rfl⟩
    · exact ⟨hFetches.inside, hWord.symm, hEmpty⟩
    · refine ⟨hFetches.inside, ?_, Nat.le_antisymm hLength hFull⟩
      have hAddress : address.toNat < 0x1000 := hFits
      have hCall : 0x2000 + address.toNat = machine.word := hWord
      omega

/-- A machine that waits for a key meets no fault. -/
theorem step_ne_error_of_awaiting {machine : Machine} {x : Register}
    (hFault : machine.fault = none) (hAwaiting : machine.awaiting = some x) (fault : Fault) :
    machine.step.1 ≠ .error fault := by
  intro hError
  simp only [step, hFault, hAwaiting] at hError
  contradiction

/-! ## After the fault -/

theorem step_of_fault {machine : Machine} {fault : Fault} (hFault : machine.fault = some fault) :
    machine.step = (.error fault, machine) :=
  step_of_steps (.halted hFault)

/-- No operation between two resets gets rid of a fault. -/
theorem fault_act (machine : Machine) (action : Action) (fault : Fault)
    (hSteady : action.isSteady) (hFault : machine.fault = some fault) :
    (machine.act action).2.fault = some fault := by
  rcases machine.act_of_isSteady hSteady with rfl | hSame
  · show machine.step.2.fault = some fault
    rw [step_of_fault hFault]
    exact hFault
  · rw [hSame.fault]
    exact hFault

theorem fault_run {machine : Machine} {actions : List Action} {fault : Fault}
    (hSteady : ∀ action ∈ actions, action.isSteady) (hFault : machine.fault = some fault) :
    (machine.run actions).2.fault = some fault :=
  run_preserves (fun machine action => fault_act machine action fault) hSteady hFault

/-- Right after a reset there is a zero where programs start. -/
theorem word_reset (machine : Machine) : machine.reset.word = 0 := by
  show initialMemory.word 0x200 = 0
  decide +kernel

/-- A reset machine runs again; it finds no program and passes over the zero. -/
theorem step_reset (machine : Machine) : machine.reset.step.1 = .ok (.unknown 0) := by
  have hFetches : machine.reset.Fetches 0 := by
    refine ⟨⟨rfl, rfl⟩, ?_, machine.word_reset.symm⟩
    show (UInt16.ofNat Program.start).toNat + 1 < 4096
    decide
  rw [step_of_steps (.unknown hFetches rfl)]

/-- Faults are exact: a ready machine meets a fault under its condition only, and a
waiting machine never.  They are atomic: nothing but the record of the fault changes.
They are sticky: whatever a host does short of a reset, every later step reports the
same fault and changes nothing, and after a reset the machine runs again. -/
theorem faults_exact_atomic_sticky :
    (∀ machine : Machine, machine.Ready → machine.stack.length ≤ stackLimit →
      ∀ fault, machine.step.1 = .error fault ↔ machine.FaultDue fault) ∧
    (∀ (machine : Machine) (x : Register), machine.fault = none → machine.awaiting = some x →
      ∀ fault, machine.step.1 ≠ .error fault) ∧
    (∀ machine : Machine, machine.Ready → machine.stack.length ≤ stackLimit →
      ∀ fault, machine.step.1 = .error fault →
        machine.step.2 = machine.haltedBy fault ∧
        ∀ actions : List Action, (∀ action ∈ actions, action.isSteady) →
          let later := (machine.step.2.run actions).2
          later.step = (.error fault, later) ∧
            later.reset.Ready ∧ later.reset.step.1 = .ok (.unknown 0)) := by
  refine ⟨?_, ?_, ?_⟩
  · intro machine hReady hLength fault
    constructor
    · exact faultDue_of_step hReady hLength
    · intro hDue
      rw [step_of_faultDue hReady hDue]
  · intro machine x hFault hAwaiting fault
    exact step_ne_error_of_awaiting hFault hAwaiting fault
  · intro machine hReady hLength fault hError
    have hStep := step_of_faultDue hReady (faultDue_of_step hReady hLength hError)
    rw [hStep]
    refine ⟨rfl, ?_⟩
    intro actions hSteady later
    have hLater : later.fault = some fault := fault_run hSteady rfl
    exact ⟨step_of_fault hLater, ⟨rfl, rfl⟩, step_reset later⟩

/-- A return without a call, and a machine that waits. -/
theorem faults_exact_atomic_sticky_return :
    let start := fresh (Entropy.ofWords fun _ => 0)
    let waiting : Machine := { start with awaiting := some 3 }
    let stray := (start.run [.load [0x00, 0xEE]]).2
    let actions : List Action := [.load [0x60, 0x01], .tick, .setKey 3 true, .step]
    let later := (stray.step.2.run actions).2
    stray.step.1 = .error .stackEmpty ∧ stray.step.2 = stray.haltedBy .stackEmpty ∧
      later.step = (.error .stackEmpty, later) ∧
      ∀ fault, waiting.step.1 ≠ .error fault := by
  intro start waiting stray actions later
  obtain ⟨hExact, hNever, hAtomic⟩ := faults_exact_atomic_sticky
  have hReady : stray.Ready := ⟨rfl, rfl⟩
  have hLength : stray.stack.length ≤ stackLimit := Nat.zero_le _
  have hDue : stray.FaultDue .stackEmpty := ⟨by decide, by decide +kernel, rfl⟩
  have hError := (hExact stray hReady hLength .stackEmpty).mpr hDue
  obtain ⟨hNext, hSticky⟩ := hAtomic stray hReady hLength .stackEmpty hError
  exact ⟨hError, hNext, (hSticky actions (by decide)).1,
    hNever waiting 3 rfl rfl⟩

end Machine
end ChipEight
