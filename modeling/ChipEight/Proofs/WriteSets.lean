import ChipEight.Proofs.Bystanders
import ChipEight.Proofs.Footprint
import ChipEight.Proofs.Ranges

/-!
# What an instruction writes

An instruction changes little of the machine, and what it may change can be read off the
instruction, the index register and the held press before it is executed.  The machine is
taken apart here into the parts that can change on their own, down to a single byte of the
memory and a single register.  The program counter, which nearly every instruction moves, is
not among them.

* `Machine.Part`, `Machine.SameAt` — the parts, and two machines that agree on one;
* `Machine.writeSet` — the parts that an instruction may write;
* `Machine.keptParts` — the parts that no instruction writes;
* `Machine.sameAt_of_effect` — every other part is as it was before;
* `Machine.instructions_keep_to_their_write_set` — the law for instructions and for the
  cycles around them.
-/

namespace ChipEight

namespace ArithOp

/-- The operations that leave a flag behind. -/
def setsFlag : ArithOp → Bool
  | .assign | .or | .and | .xor => false
  | .add | .sub | .shiftRight | .subReverse | .shiftLeft => true

end ArithOp

namespace Machine

/-! ## The parts of a machine -/

/-- The parts of a machine that can change on their own, apart from the program counter. -/
inductive Part where
  | name
  | opcode
  | memory (address : Address)
  | register (x : Register)
  | index
  | stack
  | delay
  | sound
  | screen
  | redraw
  | levels
  | latch
  | awaiting
  | fault
  | entropy
deriving DecidableEq

/-- Two machines agree on a part. -/
def SameAt (before after : Machine) : Part → Prop
  | .name => after.name = before.name
  | .opcode => after.opcode = before.opcode
  | .memory address => after.memory.read address.val = before.memory.read address.val
  | .register x => after.value x = before.value x
  | .index => after.index = before.index
  | .stack => after.stack = before.stack
  | .delay => after.delay = before.delay
  | .sound => after.sound = before.sound
  | .screen => after.screen = before.screen
  | .redraw => after.redraw = before.redraw
  | .levels => after.keypad.levels = before.keypad.levels
  | .latch => after.keypad.latch = before.keypad.latch
  | .awaiting => after.awaiting = before.awaiting
  | .fault => after.fault = before.fault
  | .entropy => after.entropy = before.entropy

/-- The bytes from the index register on. -/
def pointedParts (machine : Machine) (count : Nat) : List Part :=
  (List.range count).map fun offset => .memory (Address.wrap (machine.index.toNat + offset))

/-- The parts that an instruction may write.  An `FX0A` writes its register if it finds a
press to use, and begins a wait if it does not. -/
def writeSet (machine : Machine) : Instruction Register → List Part
  | .clear => [.screen]
  | .ret | .call _ => [.stack]
  | .jump _ | .jumpOffset _ => []
  | .skipEqual _ _ | .skipNotEqual _ _ | .skipSame _ _ | .skipDifferent _ _ => []
  | .skipPressed _ | .skipReleased _ => []
  | .set x _ | .add x _ | .readDelay x => [.register x]
  | .arith op x _ => .register x :: if op.setsFlag then [.register Register.flag] else []
  | .setIndex _ | .addIndex _ | .pointGlyph _ => [.index]
  | .random x _ => [.entropy, .register x]
  | .draw _ _ _ => [.screen, .register Register.flag]
  | .awaitKey x =>
    match machine.heldPress with
    | some _ => [.latch, .register x]
    | none => [.latch, .awaiting]
  | .setDelay _ => [.delay]
  | .setSound _ => [.sound]
  | .storeDecimal _ => machine.pointedParts 3
  | .storeFront x => machine.pointedParts (x.val + 1)
  | .loadFront x => ((List.finRange 16).filter (· ≤ x)).map .register

/-- The parts that no instruction writes. -/
def keptParts : List Part := [.name, .opcode, .redraw, .levels, .fault]

theorem not_mem_writeSet_of_kept (machine : Machine) (instruction : Instruction Register)
    {part : Part} (hKept : part ∈ keptParts) : part ∉ machine.writeSet instruction := by
  simp only [keptParts, List.mem_cons, List.not_mem_nil, or_false] at hKept
  cases instruction with
  | arith op x y =>
    rcases hKept with rfl | rfl | rfl | rfl | rfl <;>
      cases op <;> simp [writeSet, ArithOp.setsFlag]
  | awaitKey x =>
    rcases hKept with rfl | rfl | rfl | rfl | rfl <;>
      cases hHeld : machine.heldPress <;> simp [writeSet, hHeld]
  | _ => rcases hKept with rfl | rfl | rfl | rfl | rfl <;> simp [writeSet, pointedParts]

/-! ## Changing one part -/

variable {machine next other : Machine} {part : Part}

theorem SameAt.trans (hFirst : SameAt machine next part) (hSecond : SameAt next other part) :
    SameAt machine other part := by
  cases part <;> exact Eq.trans hSecond hFirst

theorem sameAt_advance (machine : Machine) (step : CounterStep) (part : Part) :
    SameAt machine (machine.advance step) part := by
  cases part <;> rfl

theorem sameAt_setValue {x : Register} (hPart : part ≠ .register x) (value : UInt8) :
    SameAt machine (machine.setValue x value) part := by
  cases part with
  | register y =>
    have hOther : x ≠ y := fun hSame => hPart (congrArg Part.register hSame.symm)
    show (machine.registers.set x value).get y = machine.registers.get y
    rw [Registers.get_set, if_neg hOther]
  | _ => rfl

theorem sameAt_screen (hPart : part ≠ .screen) (screen : Screen) :
    SameAt machine { machine with screen := screen } part := by
  cases part <;> first | rfl | contradiction

theorem sameAt_entropy (hPart : part ≠ .entropy) (entropy : Entropy) :
    SameAt machine { machine with entropy := entropy } part := by
  cases part <;> first | rfl | contradiction

theorem sameAt_clearLatch (hPart : part ≠ .latch) :
    SameAt machine { machine with keypad := machine.keypad.clearLatch } part := by
  cases part <;> first | rfl | contradiction

theorem sameAt_store {values : List UInt8} (hPart : part ∉ machine.pointedParts values.length) :
    SameAt machine
      { machine with memory := machine.memory.writeAll machine.index.toNat values } part := by
  cases part with
  | memory address =>
    refine Memory.read_writeAll_of_outside fun offset hOffset hSame => hPart ?_
    have hPlace : Address.wrap (machine.index.toNat + offset) = address :=
      Fin.ext (hSame.trans (Nat.mod_eq_of_lt address.isLt))
    exact List.mem_map.mpr ⟨offset, List.mem_range.mpr hOffset, congrArg Part.memory hPlace⟩
  | _ => rfl

theorem sameAt_combine {op : ArithOp} {x y : Register}
    (hPart : part ∉ machine.writeSet (.arith op x y)) :
    SameAt machine (machine.combine op x y) part := by
  obtain ⟨hTarget, hFlag⟩ := not_or.mp (mt List.mem_cons.mpr hPart)
  cases op with
  | assign | or | and | xor => exact sameAt_setValue hTarget _
  | add | sub | shiftRight | subReverse | shiftLeft =>
    have hNoFlag : part ≠ .register Register.flag := fun hSame => hFlag (hSame ▸ List.mem_cons_self)
    exact (sameAt_setValue hTarget _).trans (sameAt_setValue hNoFlag _)

theorem sameAt_awaitKey {x : Register} (hPart : part ∉ machine.writeSet (.awaitKey x)) :
    SameAt machine (machine.awaitKey x).machine part := by
  cases hHeld : machine.heldPress with
  | some key =>
    simp only [writeSet, hHeld, List.mem_cons, List.not_mem_nil, or_false, not_or] at hPart
    rw [awaitKey_of_heldPress x hHeld]
    exact (sameAt_clearLatch hPart.1).trans (sameAt_setValue hPart.2 _)
  | none =>
    simp only [writeSet, hHeld, List.mem_cons, List.not_mem_nil, or_false, not_or] at hPart
    rw [awaitKey_of_no_heldPress x hHeld]
    refine (sameAt_clearLatch hPart.1).trans ?_
    have hNoWait := hPart.2
    cases part <;> first | rfl | contradiction

theorem sameAt_loadFront {x : Register} (hPart : part ∉ machine.writeSet (.loadFront x)) :
    SameAt machine
      { machine with
        registers := machine.registers.setFront
          (machine.memory.readAll machine.index.toNat (x.val + 1)) } part := by
  cases part with
  | register y =>
    have hBehind : x < y := by simpa [writeSet] using hPart
    have hNone : (machine.memory.readAll machine.index.toNat (x.val + 1))[y.val]? = none := by
      apply List.getElem?_eq_none
      rw [Memory.readAll, List.length_map, List.length_range]
      exact hBehind
    show (machine.registers.setFront _).get y = machine.registers.get y
    rw [Registers.get_setFront, hNone, Option.getD_none]
  | _ => rfl

/-! ## One instruction -/

/-- An executed instruction leaves every part alone that it does not write. -/
theorem sameAt_of_effect {instruction : Instruction Register} {done : Effect}
    (hEffect : machine.effect instruction = .ok done)
    (hPart : part ∉ machine.writeSet instruction) : SameAt machine done.machine part := by
  cases instruction with
  | ret =>
    obtain ⟨latest, earlier, -, rfl⟩ := effect_ret_eq_ok_iff.mp hEffect
    cases part <;> first | rfl | exact absurd List.mem_cons_self hPart
  | call address =>
    obtain ⟨-, rfl⟩ := effect_call_eq_ok_iff.mp hEffect
    cases part <;> first | rfl | exact absurd List.mem_cons_self hPart
  | jump | jumpOffset | skipEqual | skipNotEqual | skipSame | skipDifferent | skipPressed
  | skipReleased =>
    cases hEffect
    cases part <;> rfl
  | clear | setIndex | addIndex | pointGlyph | setDelay | setSound =>
    cases hEffect
    cases part <;> first | rfl | exact absurd List.mem_cons_self hPart
  | set x | add x | readDelay x =>
    cases hEffect
    exact sameAt_setValue (mt List.mem_singleton.mpr hPart) _
  | arith op x y =>
    cases hEffect
    exact sameAt_combine hPart
  | random x mask =>
    cases hEffect
    obtain ⟨hEntropy, hTarget⟩ := not_or.mp (mt List.mem_cons.mpr hPart)
    have hDrawn : SameAt machine { machine with entropy := machine.entropy.draw.2 } part :=
      sameAt_entropy hEntropy _
    exact hDrawn.trans (sameAt_setValue (mt List.mem_singleton.mpr hTarget) _)
  | draw x y height =>
    cases hEffect
    obtain ⟨hScreen, hFlag⟩ := not_or.mp (mt List.mem_cons.mpr hPart)
    have hDrawn : SameAt machine
        { machine with screen := (machine.drawSprite x y height).screen } part :=
      sameAt_screen hScreen _
    exact hDrawn.trans (sameAt_setValue (mt List.mem_singleton.mpr hFlag) _)
  | awaitKey x =>
    cases hEffect
    exact sameAt_awaitKey hPart
  | storeDecimal x =>
    cases hEffect
    exact sameAt_store hPart
  | storeFront x =>
    cases hEffect
    refine sameAt_store ?_
    rw [Registers.length_upTo]
    exact hPart
  | loadFront x =>
    cases hEffect
    exact sameAt_loadFront hPart

/-- An instruction that is executed has an effect, and moves the counter after it. -/
theorem exists_effect_of_execute {instruction : Instruction Register} {signal : Signal}
    (hExecute : machine.execute instruction = .ok (signal, next)) :
    ∃ done, machine.effect instruction = .ok done ∧ done.signal = signal ∧
      done.machine.advance done.step = next := by
  unfold execute at hExecute
  split at hExecute
  · next done hEffect =>
    cases hExecute
    exact ⟨done, hEffect, rfl, rfl⟩
  · contradiction

theorem sameAt_of_execute {instruction : Instruction Register} {signal : Signal}
    (hExecute : machine.execute instruction = .ok (signal, next))
    (hPart : part ∉ machine.writeSet instruction) : SameAt machine next part := by
  obtain ⟨done, hEffect, -, rfl⟩ := exists_effect_of_execute hExecute
  exact (sameAt_of_effect hEffect hPart).trans (sameAt_advance done.machine done.step part)

/-- A cycle that executes the opcode it has fetched records the opcode, marks the screen if
the instruction draws, and does nothing else beside the instruction. -/
theorem step_of_execute {opcode : Opcode} {instruction : Instruction Register} {signal : Signal}
    (hFetches : machine.Fetches opcode) (hDecode : Instruction.decode? opcode = some instruction)
    (hExecute : machine.execute instruction = .ok (signal, next)) :
    machine.step =
      (.ok signal.outcome,
        { next with opcode := opcode, redraw := machine.redraw || instruction.draws }) := by
  have hName : next.name = machine.name :=
    sameAt_of_execute hExecute (not_mem_writeSet_of_kept machine instruction List.mem_cons_self)
  obtain ⟨done, hEffect, rfl, rfl⟩ := exists_effect_of_execute hExecute
  have hFootprint := footprint_of_effect hEffect
  have hRecorded : (machine.recording opcode).effect instruction =
      .ok (done.labelled machine.name opcode) := by
    show (machine.labelled machine.name opcode).effect instruction = _
    rw [effect_labelled, hEffect]
    rfl
  rw [step_of_steps (.executed hFetches hDecode hRecorded), ← hFootprint.signal,
    ← hFootprint.redraw, ← hName]
  rfl

/-- What instructions write, and what the cycles around them do.  An executed instruction
leaves every part of the machine alone that is not in its write set, and so do all of them
with the name, the opcode fetched last, the mark of a changed screen, the levels of the keys
and the fault.  A call saves one address, a return takes the latest one away, and a random byte
is exactly one word taken from the stream.  A cycle that executes the opcode it has fetched does
what the instruction does, records the opcode and marks the screen as changed exactly if the
instruction draws.  A cycle that passes over an unknown opcode records it and moves the counter,
and that is all. -/
theorem instructions_keep_to_their_write_set :
    (∀ (machine next : Machine) (instruction : Instruction Register) (signal : Signal),
      machine.execute instruction = .ok (signal, next) →
        (∀ part, part ∉ machine.writeSet instruction → SameAt machine next part) ∧
        (∀ part ∈ keptParts, SameAt machine next part) ∧
        (∀ address, instruction = .call address →
          ∃ behind, next.stack = behind :: machine.stack) ∧
        (instruction = .ret → ∃ latest, machine.stack = latest :: next.stack) ∧
        ∀ x mask, instruction = .random x mask →
          next.entropy = machine.entropy.draw.2 ∧
            next.entropy.words = machine.entropy.words ∧
            next.entropy.drawn = machine.entropy.drawn + 1) ∧
    (∀ (machine next : Machine) (opcode : Opcode) (instruction : Instruction Register)
        (signal : Signal),
      machine.Fetches opcode → Instruction.decode opcode = .ok instruction →
      machine.execute instruction = .ok (signal, next) →
        machine.step =
          (.ok signal.outcome,
            { next with opcode := opcode, redraw := machine.redraw || instruction.draws })) ∧
    ∀ (machine : Machine) (opcode : Opcode) (problem : UnsupportedOpcode),
      machine.Fetches opcode → Instruction.decode opcode = .error problem →
        machine.step =
          (.ok (.unknown opcode),
            { machine with opcode := opcode, counter := machine.counter + 2 }) := by
  refine ⟨?_, ?_, ?_⟩
  · intro machine next instruction signal hExecute
    obtain ⟨done, hEffect, -, rfl⟩ := exists_effect_of_execute hExecute
    refine ⟨fun part => sameAt_of_execute hExecute, ?_, ?_, ?_, ?_⟩
    · intro part hKept
      exact sameAt_of_execute hExecute (not_mem_writeSet_of_kept machine instruction hKept)
    · rintro address rfl
      obtain ⟨-, rfl⟩ := effect_call_eq_ok_iff.mp hEffect
      exact ⟨_, rfl⟩
    · rintro rfl
      obtain ⟨latest, earlier, hStack, rfl⟩ := effect_ret_eq_ok_iff.mp hEffect
      exact ⟨latest, hStack⟩
    · rintro x mask rfl
      cases hEffect
      exact ⟨rfl, rfl, rfl⟩
  · intro machine next opcode instruction signal hFetches hDecode hExecute
    have hDecodes := Instruction.decode?_eq_some_iff.mpr (Instruction.decode_eq_ok_iff.mp hDecode)
    exact step_of_execute hFetches hDecodes hExecute
  · intro machine opcode problem hFetches hDecode
    exact step_of_steps (.unknown hFetches (Instruction.decode_eq_error_iff.mp hDecode).1)

/-- A store of four registers that wraps around the end of the memory, a cycle that clears the
screen, and one that passes over a zero. -/
theorem instructions_keep_to_their_write_set_wrapped :
    let start := fresh (Entropy.ofWords fun _ => 0)
    let storing := { start with index := 0xFFFE }
    let clearing := (start.act (.load [0x00, 0xE0])).2
    (∃ next, storing.execute (.storeFront 3) = .ok (.proceed, next) ∧
      .memory 1 ∈ storing.writeSet (.storeFront 3) ∧
      SameAt storing next (.memory 2) ∧ SameAt storing next (.register 3)) ∧
    (clearing.step.1 = .ok .advanced ∧ clearing.step.2.opcode = 0x00E0 ∧
      clearing.step.2.redraw = true) ∧
    start.step = (.ok (.unknown 0), { start with opcode := 0, counter := start.counter + 2 }) := by
  intro start storing clearing
  obtain ⟨hWrites, hExecutes, hPasses⟩ := instructions_keep_to_their_write_set
  have hClearing : clearing.Fetches 0x00E0 :=
    ⟨⟨by decide +kernel, by decide +kernel⟩, by decide +kernel, by decide +kernel⟩
  have hStart : start.Fetches 0 := ⟨⟨rfl, rfl⟩, by decide, by decide +kernel⟩
  refine ⟨⟨_, rfl, by decide +kernel, ?_, ?_⟩, ?_, hPasses start 0 ⟨0⟩ hStart rfl⟩
  · exact (hWrites storing _ (.storeFront 3) .proceed rfl).1 (.memory 2) (by decide +kernel)
  · exact (hWrites storing _ (.storeFront 3) .proceed rfl).1 (.register 3) (by decide +kernel)
  · rw [hExecutes clearing _ 0x00E0 .clear .draw hClearing rfl rfl]
    refine ⟨rfl, rfl, ?_⟩
    show (clearing.redraw || true) = true
    exact Bool.or_true _

end Machine
end ChipEight
