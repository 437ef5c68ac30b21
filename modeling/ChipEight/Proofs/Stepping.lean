import ChipEight.Machine.Action
import ChipEight.Proofs.Decoding

/-!
# What a step can do

`Machine.step` is written as a program: it looks for a fault, then for a key wait,
then fetches, decodes and executes.  This module says the same as a relation with one
constructor for each way the step can go, so that an invariant is shown by cases on
the relation and nobody unfolds the program again:

* `Machine.Steps` — the ways a step can go, with the state it leaves behind;
* `Machine.steps_iff` — these are exactly the steps of the machine;
* `Machine.effect_ret_eq_ok_iff`, `Machine.effect_call_eq_ok_iff`,
  `Machine.effect_awaitKey_eq_ok_iff` — the instructions that do not always do the same;
* `Machine.effect_eq_error_iff` — the only instructions that fail are a return
  without a saved address and a call without room for one;
* `Machine.Flow` — what an executed instruction does to the fields that decide what
  comes next: the counter, the saved addresses and the key wait.

Addresses and opcodes are compared as numbers, which keeps the arithmetic linear.
-/

namespace ChipEight

namespace Memory

/-- The number that the two bytes at an address make up, the high byte first. -/
def word (memory : Memory) (pointer : Nat) : Nat :=
  0x100 * (memory.read pointer).toNat + (memory.read (pointer + 1)).toNat

theorem read_eq_getElem {memory : Memory} {pointer : Nat} (hInside : pointer < 4096) :
    memory.read pointer = memory.bytes[pointer] := by
  simp only [read, Address.wrap, Fin.getElem_fin, Nat.mod_eq_of_lt hInside]

theorem exists_fetch_of_lt (memory : Memory) {pointer : Nat} (hInside : pointer + 1 < 4096) :
    ∃ opcode, memory.fetch pointer = .ok opcode ∧ opcode.toNat = memory.word pointer := by
  have hSize : pointer + 1 < memory.bytes.toArray.size := by
    rw [Vector.size_toArray]
    exact hInside
  refine ⟨_, Opcode.fetch_of_lt hSize, ?_⟩
  rw [Opcode.toNat_ofBytes, word, read_eq_getElem hInside,
    read_eq_getElem (Nat.lt_of_succ_lt hInside)]
  rfl

theorem fetch_of_le {memory : Memory} {pointer : Nat} (hOutside : 4096 ≤ pointer + 1) :
    memory.fetch pointer = .error (.noOpcodeAt pointer 4096) := by
  have hSize : memory.bytes.toArray.size ≤ pointer + 1 := by
    rw [Vector.size_toArray]
    exact hOutside
  rw [fetch, Opcode.fetch_of_le hSize, Vector.size_toArray]

/-- An opcode is fetched where both of its bytes are inside, and it is the number
that they make up. -/
theorem fetch_eq_ok_iff {memory : Memory} {pointer : Nat} {opcode : Opcode} :
    memory.fetch pointer = .ok opcode ↔
      pointer + 1 < 4096 ∧ opcode.toNat = memory.word pointer := by
  by_cases hInside : pointer + 1 < 4096
  · obtain ⟨fetched, hFetch, hWord⟩ := memory.exists_fetch_of_lt hInside
    rw [hFetch, Except.ok.injEq, ← hWord, UInt16.toNat_inj, eq_comm]
    exact (and_iff_right hInside).symm
  · rw [fetch_of_le (Nat.not_lt.mp hInside)]
    simp [hInside]

/-- Everywhere else the fetch reports the pointer and the size of the memory. -/
theorem fetch_eq_error_iff {memory : Memory} {pointer : Nat} {fault : Fault} :
    memory.fetch pointer = .error fault ↔
      4096 ≤ pointer + 1 ∧ fault = .noOpcodeAt pointer 4096 := by
  by_cases hInside : pointer + 1 < 4096
  · obtain ⟨fetched, hFetch, -⟩ := memory.exists_fetch_of_lt hInside
    rw [hFetch]
    simp only [reduceCtorEq, false_iff]
    omega
  · have hOutside : 4096 ≤ pointer + 1 := Nat.not_lt.mp hInside
    rw [fetch_of_le hOutside, Except.error.injEq, eq_comm]
    exact (and_iff_right hOutside).symm

end Memory

namespace CounterStep

/-- Where a step leads if the counter had no upper end. -/
def reach (pointer : Nat) : CounterStep → Nat
  | .stay => pointer
  | .next => pointer + 2
  | .skip => pointer + 4
  | .jump target => target.toNat

/-- Below the last four addresses of the word no step wraps. -/
theorem toNat_apply {pointer : UInt16} (hPointer : pointer.toNat < 0xFFFC)
    (step : CounterStep) : (step.apply pointer).toNat = step.reach pointer.toNat := by
  cases step with
  | stay => rfl
  | next =>
    rw [apply, UInt16.toNat_add]
    exact Nat.mod_eq_of_lt (by simp only [UInt16.reduceToNat]; omega)
  | skip =>
    rw [apply, UInt16.toNat_add]
    exact Nat.mod_eq_of_lt (by simp only [UInt16.reduceToNat]; omega)
  | jump target => rfl

end CounterStep

namespace Signal

/-- What a cycle reports after an instruction with this signal. -/
def outcome : Signal → Outcome
  | .wait => .blocked
  | .proceed | .draw => .advanced

end Signal

namespace Effect

/-- The machine after a cycle whose instruction had this effect: the counter has
moved, and a draw is remembered for the host. -/
def next (done : Effect) : Machine :=
  { done.machine.advance done.step with
    redraw := done.machine.redraw || decide (done.signal = .draw) }

end Effect

namespace Machine

/-- The number at the program counter, which is the opcode of the next cycle. -/
def word (machine : Machine) : Nat := machine.memory.word machine.counter.toNat

theorem word_lt (machine : Machine) : machine.word < 0x10000 := by
  have hHigh := (machine.memory.read machine.counter.toNat).toNat_lt
  have hLow := (machine.memory.read (machine.counter.toNat + 1)).toNat_lt
  simp only [word, Memory.word]
  omega

/-- The opcode at the program counter. -/
def upcoming (machine : Machine) : Opcode := UInt16.ofNat machine.word

@[simp] theorem toNat_upcoming (machine : Machine) : machine.upcoming.toNat = machine.word :=
  UInt16.toNat_ofNat_of_lt machine.word_lt

theorem decode?_upcoming_call {machine : Machine} (hCall : machine.word / 0x1000 = 0x2) :
    Instruction.decode? machine.upcoming =
      some (.call (Opcode.address machine.upcoming)) := by
  have hGroup : Opcode.group machine.upcoming = 0x2 := by
    rw [Opcode.group, toNat_upcoming, hCall]
  exact Instruction.decode?_of_encode (Instruction.address_fits _)
    (Instruction.address_digits hGroup)

/-- The machine is neither halted nor waiting, so that its next step is a cycle. -/
structure Ready (machine : Machine) : Prop where
  fault : machine.fault = none
  awaiting : machine.awaiting = none

instance (machine : Machine) : Decidable machine.Ready :=
  decidable_of_iff (machine.fault = none ∧ machine.awaiting = none)
    ⟨fun h => ⟨h.1, h.2⟩, fun h => ⟨h.fault, h.awaiting⟩⟩

theorem Ready.fault_ne {machine : Machine} (hReady : machine.Ready) (fault : Fault) :
    machine.fault ≠ some fault := by
  rw [hReady.fault]
  exact nofun

theorem Ready.awaiting_ne {machine : Machine} (hReady : machine.Ready) (x : Register) :
    machine.awaiting ≠ some x := by
  rw [hReady.awaiting]
  exact nofun

/-- The machine is ready, and the opcode lies inside the memory at its counter. -/
structure Fetches (machine : Machine) (opcode : Opcode) : Prop extends machine.Ready where
  inside : machine.counter.toNat + 1 < 4096
  word : opcode.toNat = machine.word

instance (machine : Machine) (opcode : Opcode) : Decidable (machine.Fetches opcode) :=
  decidable_of_iff
    (machine.Ready ∧ machine.counter.toNat + 1 < 4096 ∧ opcode.toNat = machine.word)
    ⟨fun h => ⟨h.1, h.2.1, h.2.2⟩, fun h => ⟨h.toReady, h.inside, h.word⟩⟩

theorem fetches_upcoming {machine : Machine} (hReady : machine.Ready)
    (hInside : machine.counter.toNat + 1 < 4096) : machine.Fetches machine.upcoming where
  toReady := hReady
  inside := hInside
  word := machine.toNat_upcoming

/-- The machine with the opcode recorded that it is about to execute. -/
def recording (machine : Machine) (opcode : Opcode) : Machine :=
  { machine with opcode := opcode }

/-- The machine after a key wait for `x` that ended with `key`. -/
def resumed (machine : Machine) (x : Register) (key : Key) : Machine :=
  { machine with
    registers := machine.registers.set x (UInt8.ofNat key.val)
    counter := CounterStep.next.apply machine.counter
    keypad := machine.keypad.clearLatch
    awaiting := none }

/-- The ways a step can go: what it reports and the machine it leaves behind.  A
halted machine reports its fault again, and a machine that waits for a key resumes
once a press is latched.  A ready machine finds its counter at the end of the memory,
or passes over an unknown opcode, or meets an instruction that fails or succeeds. -/
inductive Steps (machine : Machine) : Except Fault Outcome → Machine → Prop where
  | halted {fault : Fault} (hFault : machine.fault = some fault) :
      Steps machine (.error fault) machine
  | waiting {x : Register} (hFault : machine.fault = none)
      (hAwaiting : machine.awaiting = some x) (hLatch : machine.keypad.latch = none) :
      Steps machine (.ok .blocked) machine
  | resumed {x : Register} {key : Key} (hFault : machine.fault = none)
      (hAwaiting : machine.awaiting = some x) (hLatch : machine.keypad.latch = some key) :
      Steps machine (.ok .advanced) (machine.resumed x key)
  | outside (hReady : machine.Ready) (hOutside : 4096 ≤ machine.counter.toNat + 1) :
      Steps machine (.error (.noOpcodeAt machine.counter.toNat 4096))
        { machine with fault := some (.noOpcodeAt machine.counter.toNat 4096) }
  | unknown {opcode : Opcode} (hFetches : machine.Fetches opcode)
      (hDecode : Instruction.decode? opcode = none) :
      Steps machine (.ok (.unknown opcode)) ((machine.recording opcode).advance .next)
  | failed {opcode : Opcode} {instruction : Instruction Register} {fault : Fault}
      (hFetches : machine.Fetches opcode)
      (hDecode : Instruction.decode? opcode = some instruction)
      (hEffect : (machine.recording opcode).effect instruction = .error fault) :
      Steps machine (.error fault) { machine.recording opcode with fault := some fault }
  | executed {opcode : Opcode} {instruction : Instruction Register} {done : Effect}
      (hFetches : machine.Fetches opcode)
      (hDecode : Instruction.decode? opcode = some instruction)
      (hEffect : (machine.recording opcode).effect instruction = .ok done) :
      Steps machine (.ok done.signal.outcome) done.next

/-- Without a latched press a key wait goes on as it is. -/
theorem resume_of_none {machine : Machine} {x : Register} (hLatch : machine.keypad.latch = none) :
    machine.resume x = (.blocked, machine) := by
  simp only [resume, Keypad.takeLatch, Keypad.clearLatch_of_none hLatch, hLatch]

theorem resume_of_some {machine : Machine} {x : Register} {key : Key}
    (hLatch : machine.keypad.latch = some key) :
    machine.resume x = (.advanced, machine.resumed x key) := by
  simp only [resume, Keypad.takeLatch, hLatch, resumed, setValue, advance]

theorem step_of_ready {machine : Machine} (hReady : machine.Ready) :
    machine.step = machine.cycle := by
  simp only [step, hReady.fault, hReady.awaiting]

theorem cycle_of_fetches {machine : Machine} {opcode : Opcode}
    (hFetches : machine.Fetches opcode) :
    machine.cycle =
      match Instruction.decode opcode with
      | .error problem =>
        (.ok (.unknown problem.opcode), (machine.recording opcode).advance .next)
      | .ok instruction => (machine.recording opcode).perform instruction := by
  have hFetch : machine.memory.fetch machine.counter.toNat = .ok opcode :=
    Memory.fetch_eq_ok_iff.mpr ⟨hFetches.inside, hFetches.word⟩
  simp only [cycle, hFetch]
  rfl

theorem perform_of_effect {machine : Machine} {instruction : Instruction Register}
    {done : Effect} (hEffect : machine.effect instruction = .ok done) :
    machine.perform instruction = (.ok done.signal.outcome, done.next) := by
  obtain ⟨changed, move, signal⟩ := done
  -- only a draw sets the mark for the host
  cases signal <;> simp [perform, execute, hEffect, Signal.outcome, Effect.next, advance]

theorem perform_of_error {machine : Machine} {instruction : Instruction Register}
    {fault : Fault} (hEffect : machine.effect instruction = .error fault) :
    machine.perform instruction = (.error fault, { machine with fault := some fault }) := by
  simp only [perform, execute, hEffect, halt]

/-- The relation describes steps of the machine only. -/
theorem step_of_steps {machine next : Machine} {result : Except Fault Outcome}
    (hSteps : machine.Steps result next) : machine.step = (result, next) := by
  cases hSteps with
  | halted hFault => simp only [step, hFault]
  | waiting hFault hAwaiting hLatch =>
    simp only [step, hFault, hAwaiting]
    rw [resume_of_none hLatch]
  | resumed hFault hAwaiting hLatch =>
    simp only [step, hFault, hAwaiting]
    rw [resume_of_some hLatch]
  | outside hReady hOutside =>
    have hFetch : machine.memory.fetch machine.counter.toNat =
        .error (.noOpcodeAt machine.counter.toNat 4096) :=
      Memory.fetch_eq_error_iff.mpr ⟨hOutside, rfl⟩
    rw [step_of_ready hReady]
    simp only [cycle, hFetch, halt]
  | unknown hFetches hDecode =>
    rw [step_of_ready hFetches.toReady, cycle_of_fetches hFetches]
    simp only [Instruction.decode, hDecode]
  | failed hFetches hDecode hEffect =>
    rw [step_of_ready hFetches.toReady, cycle_of_fetches hFetches]
    simp only [Instruction.decode, hDecode]
    exact perform_of_error hEffect
  | executed hFetches hDecode hEffect =>
    rw [step_of_ready hFetches.toReady, cycle_of_fetches hFetches]
    simp only [Instruction.decode, hDecode]
    exact perform_of_effect hEffect

/-- Every machine takes one of the steps of the relation. -/
theorem exists_steps (machine : Machine) : ∃ result next, machine.Steps result next := by
  cases hFault : machine.fault with
  | some fault => exact ⟨_, _, .halted hFault⟩
  | none =>
    cases hAwaiting : machine.awaiting with
    | some x =>
      cases hLatch : machine.keypad.latch with
      | none => exact ⟨_, _, .waiting hFault hAwaiting hLatch⟩
      | some key => exact ⟨_, _, .resumed hFault hAwaiting hLatch⟩
    | none =>
      have hReady : machine.Ready := ⟨hFault, hAwaiting⟩
      cases hFetch : machine.memory.fetch machine.counter.toNat with
      | error fault =>
        exact ⟨_, _, .outside hReady (Memory.fetch_eq_error_iff.mp hFetch).1⟩
      | ok opcode =>
        obtain ⟨hInside, hWord⟩ := Memory.fetch_eq_ok_iff.mp hFetch
        have hFetches : machine.Fetches opcode := ⟨hReady, hInside, hWord⟩
        cases hDecode : Instruction.decode? opcode with
        | none => exact ⟨_, _, .unknown hFetches hDecode⟩
        | some instruction =>
          cases hEffect : (machine.recording opcode).effect instruction with
          | error fault => exact ⟨_, _, .failed hFetches hDecode hEffect⟩
          | ok done => exact ⟨_, _, .executed hFetches hDecode hEffect⟩

/-- The relation describes exactly the steps of the machine. -/
theorem steps_iff {machine next : Machine} {result : Except Fault Outcome} :
    machine.Steps result next ↔ machine.step = (result, next) := by
  constructor
  · exact step_of_steps
  · intro hStep
    -- the relation has a step for the machine, and the machine takes no other one
    obtain ⟨reported, reached, hSteps⟩ := machine.exists_steps
    have hSame := (step_of_steps hSteps).symm.trans hStep
    rw [Prod.mk.injEq] at hSame
    obtain ⟨hResult, hNext⟩ := hSame
    subst hResult hNext
    exact hSteps

theorem steps_step (machine : Machine) : machine.Steps machine.step.1 machine.step.2 :=
  steps_iff.mpr rfl

/-! ## The effect of a return, a call and a key wait -/

section Effects

variable {machine : Machine}

/-- The latched press, if its key is still down. -/
def heldPress (machine : Machine) : Option Key :=
  machine.keypad.latch.filter fun key => machine.keypad.isPressed key.val

theorem effect_ret_of_nil (hStack : machine.stack = []) :
    machine.effect .ret = .error .stackEmpty := by
  simp only [effect, hStack]

theorem effect_ret_of_cons {latest : UInt16} {earlier : List UInt16}
    (hStack : machine.stack = latest :: earlier) :
    machine.effect .ret = .ok ⟨{ machine with stack := earlier }, .jump latest, .proceed⟩ := by
  simp only [effect, hStack, Effect.quiet]

theorem effect_call_of_room (address : UInt16) (hRoom : machine.stack.length < stackLimit) :
    machine.effect (.call address) =
      .ok ⟨{ machine with stack := (machine.counter + 2) :: machine.stack },
        .jump address, .proceed⟩ := by
  simp only [effect, hRoom, if_true, Effect.quiet, CounterStep.apply]

theorem effect_call_of_full (address : UInt16) (hFull : stackLimit ≤ machine.stack.length) :
    machine.effect (.call address) = .error .stackFull := by
  simp only [effect, Nat.not_lt.mpr hFull, if_false]

/-- With a held press an `FX0A` stores its key and goes on. -/
theorem awaitKey_of_heldPress {key : Key} (x : Register) (hHeld : machine.heldPress = some key) :
    machine.awaitKey x =
      ⟨{ machine with keypad := machine.keypad.clearLatch }.setValue x (UInt8.ofNat key.val),
        .next, .proceed⟩ := by
  unfold heldPress at hHeld
  simp only [awaitKey, Keypad.takeLatch, Keypad.isPressed, Keypad.clearLatch] at hHeld ⊢
  rw [hHeld]

/-- Without one it begins to wait. -/
theorem awaitKey_of_no_heldPress (x : Register) (hHeld : machine.heldPress = none) :
    machine.awaitKey x =
      ⟨{ machine with keypad := machine.keypad.clearLatch, awaiting := some x },
        .stay, .wait⟩ := by
  unfold heldPress at hHeld
  simp only [awaitKey, Keypad.takeLatch, Keypad.isPressed, Keypad.clearLatch] at hHeld ⊢
  rw [hHeld]

/-- A return goes to the latest saved address and takes it away. -/
theorem effect_ret_eq_ok_iff {done : Effect} :
    machine.effect .ret = .ok done ↔
      ∃ latest earlier, machine.stack = latest :: earlier ∧
        done = ⟨{ machine with stack := earlier }, .jump latest, .proceed⟩ := by
  cases hStack : machine.stack with
  | nil => simp [effect_ret_of_nil hStack]
  | cons latest earlier =>
    rw [effect_ret_of_cons hStack, Except.ok.injEq, eq_comm]
    constructor
    · exact fun hDone => ⟨latest, earlier, rfl, hDone⟩
    · rintro ⟨_, _, hSame, hDone⟩
      cases hSame
      exact hDone

/-- A call goes to its address and saves the one behind it. -/
theorem effect_call_eq_ok_iff {address : UInt16} {done : Effect} :
    machine.effect (.call address) = .ok done ↔
      machine.stack.length < stackLimit ∧
        done = ⟨{ machine with stack := (machine.counter + 2) :: machine.stack },
          .jump address, .proceed⟩ := by
  by_cases hRoom : machine.stack.length < stackLimit
  · simp [effect_call_of_room address hRoom, hRoom, eq_comm]
  · simp [effect_call_of_full address (Nat.not_lt.mp hRoom), hRoom]

/-- An `FX0A` stores the key of a held press and goes on, or it begins to wait. -/
theorem effect_awaitKey_eq_ok_iff {x : Register} {done : Effect} :
    machine.effect (.awaitKey x) = .ok done ↔
      (∃ key, machine.heldPress = some key ∧
        done =
          ⟨{ machine with keypad := machine.keypad.clearLatch }.setValue x (UInt8.ofNat key.val),
            .next, .proceed⟩) ∨
      machine.heldPress = none ∧
        done =
          ⟨{ machine with keypad := machine.keypad.clearLatch, awaiting := some x },
            .stay, .wait⟩ := by
  rw [effect, Except.ok.injEq]
  cases hHeld : machine.heldPress with
  | some key => simp [awaitKey_of_heldPress x hHeld, eq_comm]
  | none => simp [awaitKey_of_no_heldPress x hHeld, eq_comm]

end Effects

/-! ## The effect of an instruction on the flow of control -/

/-- Only a return without a saved address and a call without room for one fail. -/
theorem effect_eq_error_iff {machine : Machine} {instruction : Instruction Register}
    {fault : Fault} :
    machine.effect instruction = .error fault ↔
      (instruction = .ret ∧ machine.stack = [] ∧ fault = .stackEmpty) ∨
      ((∃ address, instruction = .call address) ∧ stackLimit ≤ machine.stack.length ∧
        fault = .stackFull) := by
  cases instruction with
  | ret =>
    cases hStack : machine.stack with
    | nil => simp [effect_ret_of_nil hStack, eq_comm]
    | cons latest earlier => simp [effect_ret_of_cons hStack]
  | call address =>
    by_cases hRoom : machine.stack.length < stackLimit
    · simp [effect_call_of_room address hRoom, Nat.not_le.mpr hRoom]
    · have hFull : stackLimit ≤ machine.stack.length := Nat.not_lt.mp hRoom
      simp [effect_call_of_full address hFull, hFull, eq_comm]
  | _ => simp [effect, Effect.quiet]

/-- Two machines that agree on everything that decides which instruction comes next,
the contents of the memory apart. -/
structure SameControl (before after : Machine) : Prop where
  opcode : after.opcode = before.opcode
  counter : after.counter = before.counter
  stack : after.stack = before.stack
  awaiting : after.awaiting = before.awaiting
  fault : after.fault = before.fault

/-- What an executed instruction does to the flow of control.  Apart from returns,
calls, jumps and the beginning of a key wait, an instruction goes on to one of the two
opcodes after it. -/
inductive Flow (machine : Machine) : Instruction Register → Effect → Prop where
  | ret {latest : UInt16} {earlier : List UInt16}
      (hStack : machine.stack = latest :: earlier) :
      Flow machine .ret ⟨{ machine with stack := earlier }, .jump latest, .proceed⟩
  | call {address : UInt16} (hRoom : machine.stack.length < stackLimit) :
      Flow machine (.call address)
        ⟨{ machine with stack := (machine.counter + 2) :: machine.stack },
          .jump address, .proceed⟩
  | jump {address : UInt16} :
      Flow machine (.jump address) ⟨machine, .jump address, .proceed⟩
  | jumpOffset {address : UInt16} :
      Flow machine (.jumpOffset address)
        ⟨machine, .jump (address + (machine.value Register.first).toUInt16), .proceed⟩
  | wait {x : Register} (hHeld : machine.heldPress = none) :
      Flow machine (.awaitKey x)
        ⟨{ machine with keypad := machine.keypad.clearLatch, awaiting := some x },
          .stay, .wait⟩
  | onward {instruction : Instruction Register} {done : Effect}
      (hSame : machine.SameControl done.machine)
      (hStep : done.step = .next ∨ done.step = .skip) :
      Flow machine instruction done

theorem skipIf_cases (condition : Bool) :
    CounterStep.skipIf condition = .next ∨ CounterStep.skipIf condition = .skip := by
  cases condition
  · exact Or.inl rfl
  · exact Or.inr rfl

theorem sameControl_combine (machine : Machine) (op : ArithOp) (x y : Register) :
    machine.SameControl (machine.combine op x y) := by
  cases op <;> exact ⟨rfl, rfl, rfl, rfl, rfl⟩

/-- Every executed instruction follows one of the rules of the flow of control. -/
theorem flow_of_effect {machine : Machine} {instruction : Instruction Register}
    {done : Effect} (hEffect : machine.effect instruction = .ok done) :
    machine.Flow instruction done := by
  cases instruction with
  | ret =>
    obtain ⟨latest, earlier, hStack, rfl⟩ := effect_ret_eq_ok_iff.mp hEffect
    exact .ret hStack
  | call address =>
    obtain ⟨hRoom, rfl⟩ := effect_call_eq_ok_iff.mp hEffect
    exact .call hRoom
  | jump address => cases hEffect; exact .jump
  | jumpOffset address => cases hEffect; exact .jumpOffset
  | awaitKey x =>
    rcases effect_awaitKey_eq_ok_iff.mp hEffect with ⟨key, hHeld, rfl⟩ | ⟨hHeld, rfl⟩
    · exact .onward ⟨rfl, rfl, rfl, rfl, rfl⟩ (Or.inl rfl)
    · exact .wait hHeld
  | arith op x y =>
    cases hEffect
    exact .onward (machine.sameControl_combine op x y) (Or.inl rfl)
  | skipEqual | skipNotEqual | skipSame | skipDifferent | skipPressed | skipReleased =>
    cases hEffect
    exact .onward ⟨rfl, rfl, rfl, rfl, rfl⟩ (skipIf_cases _)
  | clear | set | add | setIndex | random | draw | readDelay | setDelay | setSound
  | addIndex | pointGlyph | storeDecimal | storeFront | loadFront =>
    cases hEffect
    exact .onward ⟨rfl, rfl, rfl, rfl, rfl⟩ (Or.inl rfl)

end Machine
end ChipEight
