import ChipEight.Proofs.Running

/-!
# Machines that behave alike

Three fields of a machine are there to be looked at: the name of the program, the opcode
that was fetched last and the mark that the screen changed.  And the index register is
wider than the memory: every byte that it points at is found through its lowest twelve
bits, although adding to it carries into the upper four.  Two machines that differ in
these respects only cannot be told apart by running them:

* `Machine.Alike` — the relation between such machines;
* `Machine.alike_effect` — alike machines execute an instruction with the same effect;
* `Machine.alike_steps` — whatever step one of them takes, the other takes the same one;
* `Machine.run_alike` — the answers to every sequence of operations are the same, and the
  machines stay alike.

The one operation that tells alike machines apart asks for the mark itself.
-/

namespace ChipEight

namespace Memory

/-! ## Accesses at addresses that wrap to the same place -/

theorem read_congr (memory : Memory) {address other : Nat}
    (hWrap : address % 4096 = other % 4096) : memory.read address = memory.read other := by
  rw [← memory.read_mod address, hWrap, read_mod]

theorem write_congr (memory : Memory) {address other : Nat}
    (hWrap : address % 4096 = other % 4096) (value : UInt8) :
    memory.write address value = memory.write other value := by
  have hPlace : Address.wrap address = Address.wrap other := Fin.ext hWrap
  simp only [write, hPlace]

theorem readAll_congr (memory : Memory) {start other : Nat}
    (hWrap : start % 4096 = other % 4096) (count : Nat) :
    memory.readAll start count = memory.readAll other count := by
  apply List.map_congr_left
  intro offset _
  have hOffset : (start + offset) % 4096 = (other + offset) % 4096 := by omega
  exact memory.read_congr hOffset

theorem writeAll_congr (memory : Memory) {start other : Nat}
    (hWrap : start % 4096 = other % 4096) (values : List UInt8) :
    memory.writeAll start values = memory.writeAll other values := by
  -- both addresses move on, so the induction keeps nothing fixed but their agreement
  induction values generalizing memory start other with
  | nil => rfl
  | cons value values ih =>
    have hNext : (start + 1) % 4096 = (other + 1) % 4096 := by omega
    rw [writeAll, writeAll, memory.write_congr hWrap]
    exact ih (memory.write other value) hNext

end Memory

namespace Machine

/-- Two machines that agree except for the name of the program, the opcode fetched last,
the mark that the screen changed, and the upper four bits of the index register. -/
structure Alike (left right : Machine) : Prop where
  memory : left.memory = right.memory
  registers : left.registers = right.registers
  index : left.index.toNat % 4096 = right.index.toNat % 4096
  counter : left.counter = right.counter
  stack : left.stack = right.stack
  delay : left.delay = right.delay
  sound : left.sound = right.sound
  screen : left.screen = right.screen
  keypad : left.keypad = right.keypad
  awaiting : left.awaiting = right.awaiting
  fault : left.fault = right.fault
  entropy : left.entropy = right.entropy

/-- Being alike is an equivalence between machines. -/
theorem alike_equivalence : Equivalence Alike where
  refl _ := ⟨rfl, rfl, rfl, rfl, rfl, rfl, rfl, rfl, rfl, rfl, rfl, rfl⟩
  symm hAlike :=
    ⟨hAlike.memory.symm, hAlike.registers.symm, hAlike.index.symm, hAlike.counter.symm,
      hAlike.stack.symm, hAlike.delay.symm, hAlike.sound.symm, hAlike.screen.symm,
      hAlike.keypad.symm, hAlike.awaiting.symm, hAlike.fault.symm, hAlike.entropy.symm⟩
  trans hFirst hSecond :=
    ⟨hFirst.memory.trans hSecond.memory, hFirst.registers.trans hSecond.registers,
      hFirst.index.trans hSecond.index, hFirst.counter.trans hSecond.counter,
      hFirst.stack.trans hSecond.stack, hFirst.delay.trans hSecond.delay,
      hFirst.sound.trans hSecond.sound, hFirst.screen.trans hSecond.screen,
      hFirst.keypad.trans hSecond.keypad, hFirst.awaiting.trans hSecond.awaiting,
      hFirst.fault.trans hSecond.fault, hFirst.entropy.trans hSecond.entropy⟩

/-- Two results that fail in the same way, or that succeed with related values. -/
inductive Matching {Problem Value : Type} (Related : Value → Value → Prop) :
    Except Problem Value → Except Problem Value → Prop where
  | failed (problem : Problem) : Matching Related (.error problem) (.error problem)
  | done {first second : Value} (hRelated : Related first second) :
      Matching Related (.ok first) (.ok second)

/-- Two answers that are the same, with alike machines behind them. -/
structure SameAnswer {Answer : Type} (first second : Answer × Machine) : Prop where
  answer : first.1 = second.1
  machine : Alike first.2 second.2

variable {left right : Machine}

namespace Alike

/-! ## What alike machines read -/

theorem value (hAlike : Alike left right) (x : Register) : left.value x = right.value x := by
  rw [Machine.value, Machine.value, hAlike.registers]

theorem pointed (hAlike : Alike left right) (count : Nat) :
    left.memory.readAll left.index.toNat count = right.memory.readAll right.index.toNat count := by
  rw [hAlike.memory]
  exact right.memory.readAll_congr hAlike.index count

theorem heldPress (hAlike : Alike left right) : left.heldPress = right.heldPress := by
  rw [Machine.heldPress, Machine.heldPress, hAlike.keypad]

theorem ready (hAlike : Alike left right) (hReady : left.Ready) : right.Ready where
  fault := hAlike.fault ▸ hReady.fault
  awaiting := hAlike.awaiting ▸ hReady.awaiting

theorem fetches (hAlike : Alike left right) {opcode : Opcode}
    (hFetches : left.Fetches opcode) : right.Fetches opcode where
  toReady := hAlike.ready hFetches.toReady
  inside := hAlike.counter ▸ hFetches.inside
  word := by
    have hWord := hFetches.word
    rw [Machine.word, hAlike.memory, hAlike.counter] at hWord
    exact hWord

/-! ## What keeps machines alike -/

theorem setValue (hAlike : Alike left right) (x : Register) (value : UInt8) :
    Alike (left.setValue x value) (right.setValue x value) :=
  { hAlike with registers := congrArg (·.set x value) hAlike.registers }

theorem setIndex (hAlike : Alike left right) {first second : UInt16}
    (hWrap : first.toNat % 4096 = second.toNat % 4096) :
    Alike { left with index := first } { right with index := second } :=
  { hAlike with index := hWrap }

theorem store (hAlike : Alike left right) (values : List UInt8) :
    Alike { left with memory := left.memory.writeAll left.index.toNat values }
      { right with memory := right.memory.writeAll right.index.toNat values } := by
  have hMemory : left.memory.writeAll left.index.toNat values =
      right.memory.writeAll right.index.toNat values := by
    rw [hAlike.memory]
    exact right.memory.writeAll_congr hAlike.index values
  exact { hAlike with memory := hMemory }

theorem combine (hAlike : Alike left right) (op : ArithOp) (x y : Register) :
    Alike (left.combine op x y) (right.combine op x y) := by
  simp only [Machine.combine, hAlike.value]
  split
  · exact (hAlike.setValue x _).setValue Register.flag _
  · exact hAlike.setValue x _

theorem randomize (hAlike : Alike left right) (x : Register) (mask : UInt8) :
    Alike (left.randomize x mask) (right.randomize x mask) := by
  simp only [Machine.randomize, hAlike.registers, hAlike.entropy]
  exact { hAlike with registers := rfl, entropy := rfl }

theorem drawSprite (hAlike : Alike left right) (x y : Register) (height : UInt8) :
    Alike (left.drawSprite x y height) (right.drawSprite x y height) := by
  simp only [Machine.drawSprite, hAlike.pointed, hAlike.value, hAlike.screen, hAlike.registers]
  exact { hAlike with screen := rfl, registers := rfl }

theorem advance (hAlike : Alike left right) {step other : CounterStep} (hStep : step = other) :
    Alike (left.advance step) (right.advance other) := by
  have hCounter : step.apply left.counter = other.apply right.counter := by
    rw [hAlike.counter, hStep]
  exact { hAlike with counter := hCounter }

theorem recording (hAlike : Alike left right) (opcode : Opcode) :
    Alike (left.recording opcode) (right.recording opcode) :=
  { hAlike with }

theorem resumed (hAlike : Alike left right) (x : Register) (key : Key) :
    Alike (left.resumed x key) (right.resumed x key) :=
  { hAlike with
    registers := congrArg (·.set x (UInt8.ofNat key.val)) hAlike.registers
    counter := congrArg CounterStep.next.apply hAlike.counter
    keypad := congrArg Keypad.clearLatch hAlike.keypad
    awaiting := rfl }

end Alike

/-! ## One instruction -/

/-- Two effects that leave alike machines behind, move the counter in the same way and
give the host the same signal. -/
structure SameEffect (first second : Effect) : Prop where
  machine : Alike first.machine second.machine
  step : first.step = second.step
  signal : first.signal = second.signal

/-- Alike machines wait for a key, or take the press that is held, in the same way. -/
theorem alike_awaitKey (hAlike : Alike left right) (x : Register) :
    SameEffect (left.awaitKey x) (right.awaitKey x) := by
  have hUnlatched : Alike { left with keypad := left.keypad.clearLatch }
      { right with keypad := right.keypad.clearLatch } :=
    { hAlike with keypad := congrArg Keypad.clearLatch hAlike.keypad }
  cases hHeld : right.heldPress with
  | some key =>
    rw [awaitKey_of_heldPress x hHeld, awaitKey_of_heldPress x (hAlike.heldPress.trans hHeld)]
    exact ⟨hUnlatched.setValue x (UInt8.ofNat key.val), rfl, rfl⟩
  | none =>
    rw [awaitKey_of_no_heldPress x hHeld,
      awaitKey_of_no_heldPress x (hAlike.heldPress.trans hHeld)]
    exact ⟨{ hUnlatched with awaiting := rfl }, rfl, rfl⟩

/-- Alike machines execute an instruction with the same effect. -/
theorem alike_effect (hAlike : Alike left right) (instruction : Instruction Register) :
    Matching SameEffect (left.effect instruction) (right.effect instruction) := by
  cases instruction with
  | clear => exact .done ⟨{ hAlike with screen := rfl }, rfl, rfl⟩
  | ret =>
    simp only [effect, hAlike.stack]
    cases right.stack with
    | nil => exact .failed _
    | cons latest earlier => exact .done ⟨{ hAlike with stack := rfl }, rfl, rfl⟩
  | jump address => exact .done ⟨hAlike, rfl, rfl⟩
  | call address =>
    have hBehind : CounterStep.next.apply left.counter :: right.stack =
        CounterStep.next.apply right.counter :: right.stack := by rw [hAlike.counter]
    simp only [effect, hAlike.stack]
    split
    · exact .done ⟨{ hAlike with stack := hBehind }, rfl, rfl⟩
    · exact .failed _
  | skipEqual | skipNotEqual | skipSame | skipDifferent =>
    simp only [effect, hAlike.value]
    exact .done ⟨hAlike, rfl, rfl⟩
  | skipPressed | skipReleased =>
    refine .done ⟨hAlike, ?_, rfl⟩
    simp only [hAlike.value, hAlike.keypad]
  | set x constant => exact .done ⟨hAlike.setValue x constant, rfl, rfl⟩
  | add x constant =>
    simp only [effect, hAlike.value]
    exact .done ⟨hAlike.setValue x _, rfl, rfl⟩
  | arith op x y => exact .done ⟨hAlike.combine op x y, rfl, rfl⟩
  | setIndex address => exact .done ⟨hAlike.setIndex rfl, rfl, rfl⟩
  | jumpOffset address =>
    simp only [effect, hAlike.value]
    exact .done ⟨hAlike, rfl, rfl⟩
  | random x mask => exact .done ⟨hAlike.randomize x mask, rfl, rfl⟩
  | draw x y height => exact .done ⟨hAlike.drawSprite x y height, rfl, rfl⟩
  | readDelay x =>
    simp only [effect, hAlike.delay]
    exact .done ⟨hAlike.setValue x right.delay.value, rfl, rfl⟩
  | awaitKey x => exact .done (alike_awaitKey hAlike x)
  | setDelay x =>
    simp only [effect, hAlike.value]
    exact .done ⟨{ hAlike with delay := rfl }, rfl, rfl⟩
  | setSound x =>
    simp only [effect, hAlike.value]
    exact .done ⟨{ hAlike with sound := rfl }, rfl, rfl⟩
  | addIndex x =>
    have hIndex : (left.index + (right.value x).toUInt16).toNat % 4096 =
        (right.index + (right.value x).toUInt16).toNat % 4096 := by
      have hWrap := hAlike.index
      -- both sums may wrap, but at a multiple of the size of the memory
      simp only [UInt16.toNat_add]
      omega
    simp only [effect, hAlike.value]
    exact .done ⟨hAlike.setIndex hIndex, rfl, rfl⟩
  | pointGlyph x =>
    simp only [effect, hAlike.value]
    exact .done ⟨hAlike.setIndex rfl, rfl, rfl⟩
  | storeDecimal x =>
    simp only [effect, hAlike.value]
    exact .done ⟨hAlike.store _, rfl, rfl⟩
  | storeFront x =>
    have hValues : left.registers.upTo x = right.registers.upTo x :=
      congrArg (Registers.upTo · x) hAlike.registers
    simp only [effect, hValues]
    exact .done ⟨hAlike.store _, rfl, rfl⟩
  | loadFront x =>
    refine .done ⟨{ hAlike with registers := ?_ }, rfl, rfl⟩
    simp only [hAlike.registers, hAlike.pointed]

/-- Alike machines report the same signal, or the same fault, for an instruction that was
not fetched. -/
theorem alike_execute (hAlike : Alike left right) (instruction : Instruction Register) :
    Matching SameAnswer (left.execute instruction) (right.execute instruction) := by
  have hSame := alike_effect hAlike instruction
  unfold execute
  generalize left.effect instruction = first, right.effect instruction = second at hSame
  cases hSame with
  | failed fault => exact .failed fault
  | done hEffect => exact .done ⟨hEffect.signal, hEffect.machine.advance hEffect.step⟩

/-! ## One step -/

/-- After a cycle with the same effect the machines are alike, though only one of them
may remember an earlier draw. -/
theorem SameEffect.next {first second : Effect} (hSame : SameEffect first second) :
    Alike first.next second.next :=
  { hSame.machine.advance hSame.step with }

/-- Whatever step one of two alike machines takes, the other takes the same one. -/
theorem alike_steps {next : Machine} {result : Except Fault Outcome}
    (hAlike : Alike left right) (hSteps : left.Steps result next) :
    ∃ other, right.Steps result other ∧ Alike next other := by
  cases hSteps with
  | halted hFault =>
    rw [hAlike.fault] at hFault
    exact ⟨right, .halted hFault, hAlike⟩
  | waiting hFault hAwaiting hLatch =>
    rw [hAlike.fault] at hFault
    rw [hAlike.awaiting] at hAwaiting
    rw [hAlike.keypad] at hLatch
    exact ⟨right, .waiting hFault hAwaiting hLatch, hAlike⟩
  | @resumed x key hFault hAwaiting hLatch =>
    rw [hAlike.fault] at hFault
    rw [hAlike.awaiting] at hAwaiting
    rw [hAlike.keypad] at hLatch
    exact ⟨right.resumed x key, .resumed hFault hAwaiting hLatch, hAlike.resumed x key⟩
  | outside hReady hOutside =>
    -- the fault names the counter, which is the same in both
    have hFault : Fault.noOpcodeAt right.counter.toNat 4096 =
        Fault.noOpcodeAt left.counter.toNat 4096 := by rw [hAlike.counter]
    rw [hAlike.counter] at hOutside
    have hSteps := Steps.outside (hAlike.ready hReady) hOutside
    rw [hFault] at hSteps
    exact ⟨_, hSteps, { hAlike with fault := rfl }⟩
  | @unknown opcode hFetches hDecode =>
    exact ⟨_, .unknown (hAlike.fetches hFetches) hDecode,
      (hAlike.recording opcode).advance rfl⟩
  | @failed opcode instruction fault hFetches hDecode hEffect =>
    have hSame := alike_effect (hAlike.recording opcode) instruction
    rw [hEffect] at hSame
    generalize hOther : (right.recording opcode).effect instruction = other at hSame
    cases hSame
    exact ⟨_, .failed (hAlike.fetches hFetches) hDecode hOther, { hAlike with fault := rfl }⟩
  | @executed opcode instruction done hFetches hDecode hEffect =>
    have hSame := alike_effect (hAlike.recording opcode) instruction
    rw [hEffect] at hSame
    generalize hOther : (right.recording opcode).effect instruction = other at hSame
    cases hSame with
    | @done _ second hDone =>
      have hSteps := Steps.executed (hAlike.fetches hFetches) hDecode hOther
      rw [← hDone.signal] at hSteps
      exact ⟨second.next, hSteps, hDone.next⟩

theorem alike_step (hAlike : Alike left right) : SameAnswer left.step right.step := by
  obtain ⟨other, hSteps, hNext⟩ := alike_steps hAlike left.steps_step
  rw [step_of_steps hSteps]
  exact ⟨rfl, hNext⟩

/-! ## Operations of the host -/

theorem alike_reset (hAlike : Alike left right) : Alike left.reset right.reset := by
  unfold reset
  rw [hAlike.keypad, hAlike.entropy]
  exact ⟨rfl, rfl, rfl, rfl, rfl, rfl, rfl, rfl, rfl, rfl, rfl, rfl⟩

/-- Whether a program is refused depends on its size only. -/
theorem alike_load (hAlike : Alike left right) (bytes : List UInt8) :
    Matching Alike (left.load bytes) (right.load bytes) := by
  have hMemory : left.memory.writeAll Program.start bytes =
      right.memory.writeAll Program.start bytes := by rw [hAlike.memory]
  unfold load
  split
  · exact .failed _
  · exact .done { hAlike with memory := hMemory }

theorem alike_loadProgram (hAlike : Alike left right) (program : Program) :
    Matching Alike (left.loadProgram program) (right.loadProgram program) := by
  have hSame := alike_load hAlike program.bytes
  unfold loadProgram
  generalize left.load program.bytes = first, right.load program.bytes = second at hSame
  cases hSame with
  | failed problem => exact .failed problem
  | done hLoaded => exact .done { hLoaded with }

theorem alike_loaded (hAlike : Alike left right)
    {first second : Except ProgramTooLarge Machine} (hSame : Matching Alike first second) :
    SameAnswer (left.loaded first) (right.loaded second) := by
  cases hSame with
  | failed problem => exact ⟨rfl, hAlike⟩
  | done hLoaded => exact ⟨rfl, hLoaded⟩

theorem alike_tick (hAlike : Alike left right) : Alike left.tick right.tick :=
  { hAlike with
    delay := congrArg Countdown.tick hAlike.delay
    sound := congrArg Countdown.tick hAlike.sound }

/-- Any operation except the question whether the screen changed. -/
def Action.isBlind : Action → Bool
  | .takeRedraw => false
  | _ => true

/-- Alike machines answer such an operation in the same way and stay alike. -/
theorem alike_act (hAlike : Alike left right) {action : Action} (hBlind : action.isBlind) :
    SameAnswer (left.act action) (right.act action) := by
  cases action with
  | load bytes => exact alike_loaded hAlike (alike_load hAlike bytes)
  | loadProgram program => exact alike_loaded hAlike (alike_loadProgram hAlike program)
  | reset => exact ⟨rfl, alike_reset hAlike⟩
  | step =>
    obtain ⟨hResult, hNext⟩ := alike_step hAlike
    exact ⟨congrArg Reply.stepped hResult, hNext⟩
  | tick => exact ⟨rfl, alike_tick hAlike⟩
  | setKey key down =>
    exact ⟨rfl, { hAlike with keypad := congrArg (Keypad.set · key down) hAlike.keypad }⟩
  | setKeys levels =>
    exact ⟨rfl, { hAlike with keypad := congrArg (Keypad.setAll · levels) hAlike.keypad }⟩
  | takeRedraw => contradiction
  | execute instruction =>
    have hSame := alike_execute hAlike instruction
    simp only [act]
    generalize left.execute instruction = first, right.execute instruction = second at hSame
    cases hSame with
    | failed fault => exact ⟨rfl, hAlike⟩
    | done hDone => exact ⟨congrArg (Reply.executed ∘ .ok) hDone.answer, hDone.machine⟩

/-- Alike machines give the same answers to every sequence of operations that does not
ask whether the screen changed, and they are alike again afterwards. -/
theorem run_alike (hAlike : Alike left right) {actions : List Action}
    (hBlind : ∀ action ∈ actions, action.isBlind) :
    (left.run actions).1 = (right.run actions).1 ∧
      Alike (left.run actions).2 (right.run actions).2 := by
  induction actions generalizing left right with
  | nil => exact ⟨rfl, hAlike⟩
  | cons action actions ih =>
    obtain ⟨hReply, hNext⟩ := alike_act hAlike (hBlind action List.mem_cons_self)
    obtain ⟨hReplies, hLast⟩ :=
      ih hNext fun later hLater => hBlind later (List.mem_cons_of_mem _ hLater)
    refine ⟨?_, hLast⟩
    show (left.act action).1 :: _ = (right.act action).1 :: _
    rw [hReply, hReplies]

/-- A machine whose index register wraps around when it is added to, and one that carries
into the upper bits instead. -/
theorem run_alike_past_the_memory :
    let plain := { fresh (Entropy.ofWords fun _ => 0) with index := 0xFFFE }
    let other := { plain with index := 0x0FFE, name := "other", opcode := 0xF21E, redraw := false }
    let actions := [Action.execute (.set 2 5), .execute (.addIndex 2), .execute (.storeDecimal 2),
      .load [0xF1, 0x65], .step, .tick, .setKey 5 true, .reset]
    (plain.run actions).1 = (other.run actions).1 ∧
      Alike (plain.run actions).2 (other.run actions).2 := by
  intro plain other actions
  have hAlike : Alike plain other :=
    ⟨rfl, rfl, by decide, rfl, rfl, rfl, rfl, rfl, rfl, rfl, rfl, rfl⟩
  have hBlind : ∀ action ∈ actions, action.isBlind := by decide
  exact run_alike hAlike hBlind

end Machine
end ChipEight
