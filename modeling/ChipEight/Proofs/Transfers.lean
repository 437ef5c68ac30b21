import ChipEight.Proofs.Obeying
import ChipEight.Proofs.WriteSets

/-!
# Transfers between registers and memory

Three instructions work on the bytes from the index register on: one stores the first registers
there, one loads them from there, and one stores the decimal digits of a register.  The index
register is wider than the memory and the bytes may wrap around its end, but as there are never
more of them than the memory has, they do not meet again.  So what was stored can be loaded back.

* `Registers.get_setFront_upTo`, `Registers.upTo_setFront` — what the first registers are after
  they were replaced;
* `Machine.SameOutside` — memories that differ in the bytes from the index register on only;
* `Machine.loadFront_after_storeFront`, `Machine.storeFront_after_loadFront` — each undoes the
  other;
* `Machine.transfers_wrap_around` — what the three instructions do, and what they undo.
-/

namespace ChipEight

namespace Registers

/-! ## Reading and writing the first registers -/

/-- Putting back the first registers of another bank makes them the same there. -/
theorem get_setFront_upTo (bank other : Registers) {x k : Register} (hInside : k ≤ x) :
    (bank.setFront (other.upTo x)).get k = other.get k := by
  rw [get_setFront, getElem?_upTo _ hInside, Option.getD_some]

/-- A replacement of the front leaves the registers behind it alone. -/
theorem get_setFront_of_le (bank : Registers) {front : List UInt8} {k : Register}
    (hBehind : front.length ≤ k.val) : (bank.setFront front).get k = bank.get k := by
  rw [get_setFront, List.getElem?_eq_none hBehind, Option.getD_none]

/-- The first registers after they were replaced are what they were replaced by. -/
theorem upTo_setFront (bank : Registers) {x : Register} {front : List UInt8}
    (hLength : front.length = x.val + 1) : (bank.setFront front).upTo x = front := by
  refine List.ext_getElem ((length_upTo _ _).trans hLength.symm) fun place hLeft hRight => ?_
  have hInside : place < x.val + 1 := hLength ▸ hRight
  have hPlace : place < 16 := by omega
  have hGet := (bank.setFront front).getElem?_upTo (x := x) (k := ⟨place, hPlace⟩)
    (Nat.le_of_lt_succ hInside)
  rw [← Option.some_inj, ← List.getElem?_eq_getElem, hGet, get_setFront,
    List.getElem?_eq_getElem hRight, Option.getD_some]

end Registers

namespace Machine

open Instruction (registerConstant)

/-! ## The bytes from the index register on -/

/-- Nothing changed in the memory but the bytes from the index register on. -/
def SameOutside (machine next : Machine) (count : Nat) : Prop :=
  ∀ address < 4096, (∀ offset < count, machine.place offset ≠ address) →
    next.memory.read address = machine.memory.read address

/-- Of the values that are stored from the index register on, each is found at its place. -/
theorem read_place_store (machine : Machine) {values : List UInt8} {offset : Nat} {value : UInt8}
    (hSize : values.length ≤ 4096) (hValue : values[offset]? = some value) :
    (machine.memory.writeAll machine.index.toNat values).read (machine.place offset) =
      value := by
  obtain ⟨hOffset, rfl⟩ := List.getElem?_eq_some_iff.mp hValue
  rw [read_place, Memory.read_writeAll_of_inside hSize hOffset]

theorem sameOutside_store (machine : Machine) (values : List UInt8) :
    SameOutside machine
      { machine with memory := machine.memory.writeAll machine.index.toNat values }
      values.length := by
  intro address hAddress hOutside
  refine Memory.read_writeAll_of_outside fun offset hOffset => ?_
  rw [Nat.mod_eq_of_lt hAddress]
  exact hOutside offset hOffset

/-- The three decimal digits of a byte. -/
theorem decimalDigits_eq (value : UInt8) :
    ∃ hundreds tens units : UInt8, decimalDigits value = [hundreds, tens, units] ∧
      hundreds.toNat ≤ 9 ∧ tens.toNat ≤ 9 ∧ units.toNat ≤ 9 ∧
      100 * hundreds.toNat + 10 * tens.toNat + units.toNat = value.toNat := by
  have hValue := value.toNat_lt
  have hHundreds : (value / 100).toNat = value.toNat / 100 := UInt8.toNat_div _ _
  have hTens : (value / 10 % 10).toNat = value.toNat / 10 % 10 := by
    rw [UInt8.toNat_mod, UInt8.toNat_div]
    rfl
  have hUnits : (value % 10).toNat = value.toNat % 10 := UInt8.toNat_mod _ _
  refine ⟨value / 100, value / 10 % 10, value % 10, rfl, ?_⟩
  rw [hHundreds, hTens, hUnits]
  omega

/-! ## The three instructions -/

/-- A store from the index register on. -/
theorem obeys_store {machine : Machine} (instruction : Instruction Register)
    {values : List UInt8} (hFits : instruction.Fits)
    (hEffect : machine.effect instruction =
      .ok ⟨{ machine with memory := machine.memory.writeAll machine.index.toNat values },
        .next, .proceed⟩) :
    ∃ stored, machine.Obeys instruction.encode .proceed stored ∧
      stored.memory = machine.memory.writeAll machine.index.toNat values ∧
      stored.registers = machine.registers ∧ stored.index = machine.index :=
  ⟨_, obeys_encode instruction hFits hEffect, rfl, rfl, rfl⟩

/-- `FX55`, with the memory that it leaves behind. -/
theorem obeys_storeFront (machine : Machine) (x : Register) :
    ∃ stored, machine.Obeys (registerConstant 0xF x 0x55) .proceed stored ∧
      stored.memory = machine.memory.writeAll machine.index.toNat (machine.registers.upTo x) ∧
      stored.registers = machine.registers ∧ stored.index = machine.index :=
  obeys_store (.storeFront x) trivial rfl

/-- `FX65`, with the registers that it leaves behind. -/
theorem obeys_loadFront (machine : Machine) (x : Register) :
    ∃ loaded, machine.Obeys (registerConstant 0xF x 0x65) .proceed loaded ∧
      loaded.registers = machine.registers.setFront
        (machine.memory.readAll machine.index.toNat (x.val + 1)) ∧
      loaded.memory = machine.memory ∧ loaded.index = machine.index := by
  have hEffect : machine.effect (.loadFront x) =
      .ok ⟨{ machine with
        registers := machine.registers.setFront
          (machine.memory.readAll machine.index.toNat (x.val + 1)) },
        .next, .proceed⟩ := rfl
  -- what the registers become is of no concern here, and too much to compare
  generalize machine.registers.setFront _ = registers at hEffect ⊢
  have hObeys := obeys_encode (.loadFront x) trivial hEffect
  exact ⟨_, hObeys, rfl, rfl, rfl⟩

/-- `FX65` after `FX55`, whatever became of the registers in between. -/
theorem loadFront_after_storeFront {machine changed : Machine} {x : Register}
    (hMemory : changed.memory =
      machine.memory.writeAll machine.index.toNat (machine.registers.upTo x))
    (hIndex : changed.index = machine.index) :
    ∃ loaded, changed.Obeys (registerConstant 0xF x 0x65) .proceed loaded ∧
      ∀ k ≤ x, loaded.value k = machine.value k := by
  obtain ⟨loaded, hObeys, hRegisters, -, -⟩ := changed.obeys_loadFront x
  have hLength := machine.registers.length_upTo x
  have hFits : (machine.registers.upTo x).length ≤ 4096 := by omega
  refine ⟨loaded, hObeys, fun k hInside => ?_⟩
  rw [value, hRegisters, hMemory, hIndex, ← hLength, Memory.readAll_writeAll _ _ hFits,
    Registers.get_setFront_upTo _ _ hInside, value]

/-- `FX55` after `FX65` writes what was read. -/
theorem storeFront_after_loadFront {machine loaded : Machine} {x : Register}
    (hRegisters : loaded.registers = machine.registers.setFront
      (machine.memory.readAll machine.index.toNat (x.val + 1)))
    (hMemory : loaded.memory = machine.memory) (hIndex : loaded.index = machine.index) :
    ∃ stored, loaded.Obeys (registerConstant 0xF x 0x55) .proceed stored ∧
      stored.memory = machine.memory := by
  obtain ⟨stored, hObeys, hStored, -, -⟩ := loaded.obeys_storeFront x
  refine ⟨stored, hObeys, ?_⟩
  rw [hStored, hRegisters, hMemory, hIndex, Registers.upTo_setFront _ (Memory.length_readAll _ _ _),
    Memory.writeAll_readAll]

/-- Transfers between registers and memory wrap around, for every value of the index register.
`FX55` stores the first registers and changes nothing else, and `FX65` loads them back, also
into registers that were changed meanwhile.  `FX65` loads them and changes nothing else, and
`FX55` after it does not change the memory.  `FX33` stores the three decimal digits of a
register.  All the bytes that one of them uses are different ones. -/
theorem transfers_wrap_around (machine : Machine) (x : Register) :
    (∃ stored, machine.Obeys (registerConstant 0xF x 0x55) .proceed stored ∧
      (∀ k ≤ x, stored.memory.read (machine.place k.val) = machine.value k) ∧
      machine.SameOutside stored (x.val + 1) ∧
      stored.registers = machine.registers ∧ stored.index = machine.index ∧
      ∀ changed : Machine, changed.memory = stored.memory → changed.index = machine.index →
        ∃ loaded, changed.Obeys (registerConstant 0xF x 0x65) .proceed loaded ∧
          ∀ k ≤ x, loaded.value k = machine.value k) ∧
    (∃ loaded, machine.Obeys (registerConstant 0xF x 0x65) .proceed loaded ∧
      (∀ k ≤ x, loaded.value k = machine.memory.read (machine.place k.val)) ∧
      (∀ k, x < k → loaded.value k = machine.value k) ∧
      loaded.memory = machine.memory ∧ loaded.index = machine.index ∧
      ∃ stored, loaded.Obeys (registerConstant 0xF x 0x55) .proceed stored ∧
        stored.memory = machine.memory) ∧
    (∃ (written : Machine) (hundreds tens units : UInt8),
      machine.Obeys (registerConstant 0xF x 0x33) .proceed written ∧
      written.memory.read (machine.place 0) = hundreds ∧
      written.memory.read (machine.place 1) = tens ∧
      written.memory.read (machine.place 2) = units ∧
      hundreds.toNat ≤ 9 ∧ tens.toNat ≤ 9 ∧ units.toNat ≤ 9 ∧
      100 * hundreds.toNat + 10 * tens.toNat + units.toNat = (machine.value x).toNat ∧
      machine.SameOutside written 3 ∧
      written.registers = machine.registers ∧ written.index = machine.index) ∧
    ∀ offset < 4096, ∀ other < 4096,
      machine.place offset = machine.place other → offset = other := by
  refine ⟨?_, ?_, ?_, fun offset hOffset other hOther => eq_of_place_eq hOffset hOther⟩
  · obtain ⟨stored, hObeys, hMemory, hRegisters, hIndex⟩ := machine.obeys_storeFront x
    have hLength := machine.registers.length_upTo x
    refine ⟨stored, hObeys, ?_, ?_, hRegisters, hIndex, fun changed hSame hPointer =>
      loadFront_after_storeFront (hSame.trans hMemory) hPointer⟩
    · intro k hInside
      rw [hMemory]
      exact machine.read_place_store (by omega) (Registers.getElem?_upTo _ hInside)
    · rw [SameOutside, hMemory, ← hLength]
      exact machine.sameOutside_store (machine.registers.upTo x)
  · obtain ⟨loaded, hObeys, hRegisters, hMemory, hIndex⟩ := machine.obeys_loadFront x
    refine ⟨loaded, hObeys, ?_, ?_, hMemory, hIndex,
      storeFront_after_loadFront hRegisters hMemory hIndex⟩
    · intro k hInside
      have hRead := machine.memory.getElem?_readAll machine.index.toNat (Nat.lt_succ_of_le hInside)
      rw [value, hRegisters, Registers.get_setFront, hRead, Option.getD_some, read_place]
    · intro k hBehind
      have hLength := machine.memory.length_readAll machine.index.toNat (x.val + 1)
      rw [value, hRegisters, Registers.get_setFront_of_le _ (hLength.symm ▸ hBehind), value]
  · obtain ⟨written, hObeys, hMemory, hRegisters, hIndex⟩ : ∃ written,
        machine.Obeys (registerConstant 0xF x 0x33) .proceed written ∧ _ :=
      obeys_store (.storeDecimal x) trivial rfl
    obtain ⟨hundreds, tens, units, hDigits, hHundreds, hTens, hUnits, hValue⟩ :=
      decimalDigits_eq (machine.value x)
    rw [hDigits] at hMemory
    have hFits : [hundreds, tens, units].length ≤ 4096 := by simp
    have hRead {offset : Nat} {digit : UInt8}
        (hDigit : [hundreds, tens, units][offset]? = some digit) :
        written.memory.read (machine.place offset) = digit := by
      rw [hMemory]
      exact machine.read_place_store hFits hDigit
    refine ⟨written, hundreds, tens, units, hObeys, hRead rfl, hRead rfl, hRead rfl,
      hHundreds, hTens, hUnits, hValue, ?_, hRegisters, hIndex⟩
    rw [SameOutside, hMemory]
    exact machine.sameOutside_store [hundreds, tens, units]

/-- Three registers stored from the last byte of the memory on lie over the first two bytes as
well, where the glyphs are, and are loaded back after the registers were cleared. -/
theorem transfers_wrap_around_the_end :
    let start := fresh (Entropy.ofWords fun _ => 0)
    let machine := { start with index := 0xFFFF, registers := start.registers.setFront [7, 8, 9] }
    ∃ stored loaded, machine.Obeys 0xF255 .proceed stored ∧
      stored.memory.read 0xFFF = 7 ∧ stored.memory.read 0 = 8 ∧ stored.memory.read 1 = 9 ∧
      stored.memory.read 2 = 0x90 ∧
      Obeys { stored with registers := Registers.zero } 0xF265 .proceed loaded ∧
      loaded.value 2 = 9 := by
  intro start machine
  obtain ⟨⟨stored, hStore, hInside, hOutside, -, hIndex, hLater⟩, -⟩ :=
    transfers_wrap_around machine 2
  obtain ⟨loaded, hLoad, hLoaded⟩ :=
    hLater { stored with registers := Registers.zero } rfl hIndex
  have hEnd : 0xFFF = machine.place (0 : Register).val := by decide
  have hStart : 0 = machine.place (1 : Register).val := by decide
  have hBehind : 1 = machine.place (2 : Register).val := by decide
  have hThird : machine.value 2 = 9 := by decide +kernel
  refine ⟨stored, loaded, hStore, ?_, ?_, ?_, ?_, hLoad, ?_⟩
  · rw [hEnd, hInside 0 (by decide)]
    decide +kernel
  · rw [hStart, hInside 1 (by decide)]
    decide +kernel
  · rw [hBehind, hInside 2 (by decide), hThird]
  · rw [hOutside 2 (by decide) (by decide)]
    decide +kernel
  · rw [hLoaded 2 (by decide), hThird]

end Machine
end ChipEight
