import ChipEight.Machine.Execute
import ChipEight.Proofs.Decoding

/-!
# Executing an opcode by its number

What an opcode does is best said about its digits: `8XY4` adds, whatever `X` and `Y` are.  An
opcode need not stand in the memory to be executed, and the machine need not be able to fetch
it, so the laws of single instructions are about every machine.  A cycle that fetches the opcode
does the same, and records it.

* `Machine.Obeys` — decoding the opcode with a number, and executing what it stands for;
* `Machine.obeys_encode` — the digit pattern of an instruction is obeyed by its effect;
* `Machine.value_setValue` and the lemmas after it — registers and counter of a machine that
  was changed;
* `Machine.place` — the addresses of the bytes from the index register on.
-/

namespace ChipEight

namespace Instruction

/-! ## The numbers of opcodes -/

theorem registerConstant_lt {group constant : Nat} (hGroup : group < 16) (x : Register)
    (hConstant : constant < 0x100) : registerConstant group x constant < 0x10000 := by
  have hX : x.val < 16 := x.isLt
  simp only [registerConstant]
  omega

theorem registerPair_lt {group lastDigit : Nat} (hGroup : group < 16) (x y : Register)
    (hDigit : lastDigit < 0x10) : registerPair group x y lastDigit < 0x10000 := by
  have hY : y.val < 16 := y.isLt
  exact registerConstant_lt hGroup x (by omega)

/-- The digit pattern of an instruction is an opcode if its operands fit their digits. -/
theorem encode_lt {instruction : Instruction Register} (hFits : instruction.Fits) :
    instruction.encode < 0x10000 := by
  cases instruction with
  | clear | ret => decide
  | jump address | call address | setIndex address | jumpOffset address =>
    have hAddress : address.toNat < 0x1000 := hFits
    simp only [encode]
    omega
  | skipEqual x constant | skipNotEqual x constant | set x constant | add x constant
  | random x constant => exact registerConstant_lt (by omega) x constant.toNat_lt
  | skipSame x y | skipDifferent x y => exact registerPair_lt (by omega) x y (by omega)
  | arith op x y => exact registerPair_lt (by omega) x y (by cases op <;> decide)
  | draw x y height => exact registerPair_lt (by omega) x y hFits
  | skipPressed x | skipReleased x | readDelay x | awaitKey x | setDelay x | setSound x
  | addIndex x | pointGlyph x | storeDecimal x | storeFront x | loadFront x =>
    exact registerConstant_lt (by omega) x (by omega)

end Instruction

namespace Machine

/-- Decoding the opcode with the given number and executing the instruction that it stands for
ends with a signal and another machine. -/
def Obeys (machine : Machine) (number : Nat) (signal : Signal) (next : Machine) : Prop :=
  ∃ (opcode : Opcode) (instruction : Instruction Register), opcode.toNat = number ∧
    Instruction.decode opcode = .ok instruction ∧
    machine.execute instruction = .ok (signal, next)

/-- The digit pattern of an instruction is obeyed by the effect of the instruction and the move
of the counter. -/
theorem obeys_encode {machine : Machine} (instruction : Instruction Register) {done : Effect}
    (hFits : instruction.Fits) (hEffect : machine.effect instruction = .ok done) :
    machine.Obeys instruction.encode done.signal (done.machine.advance done.step) := by
  have hNumber : (UInt16.ofNat instruction.encode).toNat = instruction.encode :=
    UInt16.toNat_ofNat_of_lt (Instruction.encode_lt hFits)
  refine ⟨UInt16.ofNat instruction.encode, instruction, hNumber, ?_, ?_⟩
  · exact Instruction.decode_eq_ok_iff.mpr ⟨hFits, hNumber.symm⟩
  · rw [execute, hEffect]

/-- What obeying an opcode leads to is determined, so a law that some machine is left behind is
one of the machine that is. -/
theorem Obeys.unique {machine next later : Machine} {number : Nat} {signal other : Signal}
    (hNext : machine.Obeys number signal next) (hLater : machine.Obeys number other later) :
    signal = other ∧ next = later := by
  obtain ⟨opcode, instruction, hNumber, hDecode, hExecute⟩ := hNext
  obtain ⟨same, sameInstruction, hSame, hSameDecode, hSameExecute⟩ := hLater
  obtain rfl : opcode = same := UInt16.toNat_inj.mp (hNumber.trans hSame.symm)
  obtain rfl : instruction = sameInstruction :=
    Except.ok.inj (hDecode.symm.trans hSameDecode)
  exact Prod.mk.inj (Except.ok.inj (hExecute.symm.trans hSameExecute))

/-! ## Registers and counter of a changed machine -/

@[simp] theorem value_setValue (machine : Machine) (x z : Register) (value : UInt8) :
    (machine.setValue x value).value z = if x = z then value else machine.value z :=
  machine.registers.get_set x z value

@[simp] theorem value_advance (machine : Machine) (step : CounterStep) (z : Register) :
    (machine.advance step).value z = machine.value z := rfl

/-- Going on adds two to the counter, modulo the size of its word. -/
theorem toNat_counter_advance_next (machine : Machine) :
    (machine.advance .next).counter.toNat = (machine.counter.toNat + 2) % 0x10000 :=
  UInt16.toNat_add machine.counter 2

/-! ## The bytes from the index register on -/

/-- The address that lies a number of bytes behind the index register. -/
def place (machine : Machine) (offset : Nat) : Nat := (machine.index.toNat + offset) % 4096

/-- The bytes behind the index register do not meet again within the size of the memory. -/
theorem eq_of_place_eq {machine : Machine} {offset other : Nat} (hOffset : offset < 4096)
    (hOther : other < 4096) (hSame : machine.place offset = machine.place other) :
    offset = other := by
  simp only [place] at hSame
  omega

theorem read_place (machine : Machine) (memory : Memory) (offset : Nat) :
    memory.read (machine.place offset) = memory.read (machine.index.toNat + offset) :=
  memory.read_mod _

end Machine
end ChipEight
