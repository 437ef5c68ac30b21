import ChipEight.Machine.Listing
import ChipEight.Proofs.Invariant
import ChipEight.Proofs.MemoryDump

/-!
# Reading a listing back

The listing of a machine is a text of lines, and only the name of the program can bring line
breaks of its own into it.  So the lines are read from the end.  The keys, the return addresses and
the registers take up the same number of lines in every listing.  The heading of the memory is the
last line that looks like it, whatever the name imitates, because the rows of the memory are
indented further.  The numbers in front of it take up a fixed number of lines again, and what is
left is the name.

The places for return addresses are filled up with zeros.  A call never saves the address zero, so
that the addresses end where the zeros begin.

* `Listing.Section.lines` — the lines of a section, which `Listing.splitOn_sections` finds again;
* `Machine.splitOn_listing` — the lines of a listing;
* `Machine.takeWhile_stackPlaces` — the saved addresses are the places in front of the first zero;
* `Machine.listing_determines_machine` — what two machines with one listing have in common.
-/

namespace ChipEight

theorem Memory.toList_injective : Function.Injective Memory.toList := by
  rintro ⟨bytes⟩ ⟨others⟩ hSame
  exact congrArg Memory.mk (Vector.toList_inj.mp hSame)

theorem Registers.toList_injective : Function.Injective Registers.toList := by
  rintro ⟨values⟩ ⟨others⟩ hSame
  exact congrArg Registers.mk (Vector.toList_inj.mp hSame)

namespace Listing

/-- A sequence is split at the last occurrence of a marker in one way only. -/
theorem eq_of_append_last {α : Type} {marker : α} {front other back rest : List α}
    (hBack : marker ∉ back) (hRest : marker ∉ rest)
    (hSame : front ++ marker :: back = other ++ marker :: rest) :
    front = other ∧ back = rest := by
  have hNothing {between later last : List α} (hLater : marker ∉ later)
      (hMarker : marker :: later = between ++ marker :: last) : between = [] := by
    cases between with
    | nil => rfl
    | cons _ between =>
      rw [(List.cons.inj hMarker).2] at hLater
      exact absurd (List.mem_append_right between List.mem_cons_self) hLater
  rcases List.append_eq_append_iff.mp hSame with ⟨between, rfl, hMarker⟩ | ⟨between, rfl, hMarker⟩
  · obtain rfl := hNothing hBack hMarker
    exact ⟨(List.append_nil front).symm, (List.cons.inj hMarker).2⟩
  · obtain rfl := hNothing hRest hMarker
    exact ⟨List.append_nil other, (List.cons.inj hMarker).2.symm⟩

/-! ## The lines of a section -/

/-- A row behind two tabulators. -/
def indented (row : List Char) : List Char := '\t' :: '\t' :: row

theorem indented_injective : Function.Injective indented := fun _ _ hSame =>
  (List.cons.inj (List.cons.inj hSame).2).2

namespace Section

/-- The line of a title. -/
def heading (part : Section) : List Char := '\t' :: part.title ++ [' ', ':']

def lines (part : Section) : List (List Char) := part.heading :: part.rows.map indented

/-- No line of the section is broken. -/
structure Unbroken (part : Section) : Prop where
  title : '\n' ∉ part.title
  rows : ∀ row ∈ part.rows, '\n' ∉ row

theorem Unbroken.lines {part : Section} (hPart : part.Unbroken) :
    ∀ line ∈ part.lines, '\n' ∉ line := by
  have hTitle := hPart.title
  have hRows := hPart.rows
  simpa [Section.lines, heading, indented] using ⟨hTitle, hRows⟩

theorem unbroken_ofNumber {title : String} (hTitle : '\n' ∉ title.toList) (value : Nat) :
    (ofNumber title value).Unbroken where
  title := hTitle
  rows row hMem := by
    obtain rfl : row = Numeral.markedHex 4 value := List.mem_singleton.mp hMem
    exact newline_not_mem_markedHex value

/-- A section is the text of its lines. -/
theorem text_eq (part : Section) : part.text = part.lines.flatMap (· ++ ['\n']) := by
  have hRows : part.rows.flatMap rowLine = (part.rows.map indented).flatMap (· ++ ['\n']) := by
    rw [List.flatMap_map]
    rfl
  simp only [text, lines, heading, hRows, List.flatMap_cons, List.append_assoc, List.cons_append,
    List.nil_append]

end Section

/-- Lines that are not broken are found again between the line breaks. -/
theorem splitOn_lines {lines : List (List Char)} (hLines : ∀ line ∈ lines, '\n' ∉ line)
    (rest : List Char) :
    (lines.flatMap (· ++ ['\n']) ++ rest).splitOn '\n' = lines ++ rest.splitOn '\n' := by
  induction lines with
  | nil => rfl
  | cons line lines ih =>
    obtain ⟨hLine, hLater⟩ := List.forall_mem_cons.mp hLines
    rw [List.flatMap_cons, List.append_assoc, List.append_assoc, List.singleton_append,
      List.splitOn_append_cons_self_of_not_mem hLine, ih hLater, List.cons_append]

theorem splitOn_sections {parts : List Section} (hParts : ∀ part ∈ parts, part.Unbroken)
    (rest : List Char) :
    (parts.flatMap Section.text ++ rest).splitOn '\n' =
      parts.flatMap Section.lines ++ rest.splitOn '\n' := by
  have hText : Section.text = fun part => part.lines.flatMap (· ++ ['\n']) :=
    funext Section.text_eq
  rw [hText, ← List.flatMap_assoc]
  refine splitOn_lines (fun line hMem => ?_) rest
  obtain ⟨part, hPart, hLine⟩ := List.mem_flatMap.mp hMem
  exact (hParts part hPart).lines line hLine

end Listing

namespace Machine

open Listing

/-! ## The lines of a listing -/

/-- The sections of a single number. -/
def numberSections (machine : Machine) : List Section :=
  [Section.ofNumber "Opcode" machine.opcode.toNat,
   Section.ofNumber "Program Counter" machine.counter.toNat,
   Section.ofNumber "Index Register" machine.index.toNat,
   Section.ofNumber "Delay Timer" machine.delay.value.toNat,
   Section.ofNumber "Sound Timer" machine.sound.value.toNat]

def memorySection (machine : Machine) : Section :=
  Section.titled "Memory" ((memoryRows machine.memory.toList).map MemoryRow.text)

/-- The sections after the memory. -/
def tableSections (machine : Machine) : List Section :=
  [Section.titled "Keyboard" (levelRows machine.keypad.levels.toList),
   Section.titled "Stack" (numberRows (machine.stackPlaces.map UInt16.toNat)),
   Section.titled "Register" (numberRows (machine.registers.toList.map UInt8.toNat))]

theorem unbroken_numberSections (machine : Machine) :
    ∀ part ∈ machine.numberSections, part.Unbroken := by
  simp only [numberSections, List.forall_mem_cons, List.not_mem_nil, false_implies, implies_true,
    and_true]
  exact ⟨Section.unbroken_ofNumber (by decide) _, Section.unbroken_ofNumber (by decide) _,
    Section.unbroken_ofNumber (by decide) _, Section.unbroken_ofNumber (by decide) _,
    Section.unbroken_ofNumber (by decide) _⟩

theorem unbroken_memorySection (machine : Machine) : machine.memorySection.Unbroken where
  title := show '\n' ∉ "Memory".toList by decide
  rows row hMem := by
    obtain ⟨shown, -, rfl⟩ := List.mem_map.mp hMem
    exact shown.newline_not_mem_text

theorem unbroken_tableSections (machine : Machine) :
    ∀ part ∈ machine.tableSections, part.Unbroken := by
  simp only [tableSections, List.forall_mem_cons, List.not_mem_nil, false_implies, implies_true,
    and_true]
  have hKeyboard : '\n' ∉ "Keyboard".toList := by decide
  have hStack : '\n' ∉ "Stack".toList := by decide
  have hRegister : '\n' ∉ "Register".toList := by decide
  exact ⟨⟨hKeyboard, newline_not_mem_rowsWith newline_not_mem_levelsText _⟩,
    ⟨hStack, newline_not_mem_rowsWith newline_not_mem_numbersText _⟩,
    ⟨hRegister, newline_not_mem_rowsWith newline_not_mem_numbersText _⟩⟩

/-- The lines of the name, of which there are more than one if the name is broken. -/
def nameLines (machine : Machine) : List (List Char) :=
  (indented machine.name.toList).splitOn '\n'

def numberLines (machine : Machine) : List (List Char) :=
  machine.numberSections.flatMap Section.lines

def memoryLines (machine : Machine) : List (List Char) :=
  machine.memorySection.rows.map indented

/-- The lines after the memory. -/
def tableLines (machine : Machine) : List (List Char) :=
  machine.tableSections.flatMap Section.lines ++ [['\x7d']]

/-- What stands in front of the name. -/
def beforeName : List Char :=
  "Chipset \x7b\n".toList ++ ('\t' :: "Program Name".toList ++ [' ', ':', '\n'])

/-- What stands after the name. -/
def afterName (machine : Machine) : List Char :=
  (machine.numberSections ++ machine.memorySection :: machine.tableSections).flatMap Section.text ++
    ['\x7d']

theorem toList_listing (machine : Machine) :
    machine.listing.toList =
      beforeName ++ (indented machine.name.toList ++ '\n' :: machine.afterName) := by
  have hSections : machine.sections =
      Section.titled "Program Name" [machine.name.toList] ::
        (machine.numberSections ++ machine.memorySection :: machine.tableSections) := rfl
  have hName : (Section.titled "Program Name" [machine.name.toList]).text =
      '\t' :: "Program Name".toList ++ [' ', ':', '\n'] ++
        (indented machine.name.toList ++ ['\n']) := by
    rw [Section.text, Section.titled, List.flatMap_singleton]
    rfl
  unfold listing beforeName afterName
  rw [String.toList_ofList, hSections, List.flatMap_cons, hName]
  -- what the two texts say does not matter here
  generalize "Chipset \x7b\n".toList = opening
  generalize "Program Name".toList = title
  simp only [List.append_assoc, List.cons_append, List.nil_append]

/-- The lines of a listing, from the name on. -/
theorem splitOn_listing (machine : Machine) :
    (indented machine.name.toList ++ '\n' :: machine.afterName).splitOn '\n' =
      (machine.nameLines ++ machine.numberLines) ++
        machine.memorySection.heading :: machine.memoryLines ++ machine.tableLines := by
  have hParts : ∀ part ∈ machine.numberSections ++ machine.memorySection :: machine.tableSections,
      part.Unbroken := by
    rw [List.forall_mem_append, List.forall_mem_cons]
    exact ⟨machine.unbroken_numberSections, machine.unbroken_memorySection,
      machine.unbroken_tableSections⟩
  have hEnd : ['\x7d'].splitOn '\n' = [['\x7d']] := rfl
  rw [List.splitOn_append_cons_self, afterName, splitOn_sections hParts, hEnd]
  simp only [List.flatMap_append, List.flatMap_cons, nameLines, numberLines, memoryLines,
    tableLines, Section.lines, List.append_assoc, List.cons_append]

/-! ## The parts of a listing -/

/-- A row of the memory never looks like the heading of the memory. -/
theorem heading_not_mem_memoryLines (machine other : Machine) :
    machine.memorySection.heading ∉ other.memoryLines := by
  intro hMem
  obtain ⟨row, -, hRow⟩ := List.mem_map.mp hMem
  have hSecond : '\t' = 'M' := (List.cons.inj (List.cons.inj hRow).2).1
  exact absurd hSecond (by decide)

@[simp] theorem length_numberLines (machine : Machine) : machine.numberLines.length = 10 := rfl

theorem length_stackPlaces {machine : Machine} (hInv : machine.Invariant) :
    machine.stackPlaces.length = 16 := by
  have hRoom : machine.stack.length ≤ 16 := hInv.stack_length
  rw [stackPlaces, List.length_append, List.length_reverse, List.length_replicate, stackLimit]
  omega

/-- Sixteen values take up two rows. -/
theorem length_rows_keyboard (machine : Machine) :
    (levelRows machine.keypad.levels.toList).length = 2 := by
  simp

theorem length_rows_stack {machine : Machine} (hInv : machine.Invariant) :
    (numberRows (machine.stackPlaces.map UInt16.toNat)).length = 2 := by
  rw [length_numberRows, List.length_map, length_stackPlaces hInv]

theorem length_rows_register (machine : Machine) :
    (numberRows (machine.registers.toList.map UInt8.toNat)).length = 2 := by
  simp

theorem length_tableLines {machine : Machine} (hInv : machine.Invariant) :
    machine.tableLines.length = 10 := by
  simp only [tableLines, tableSections, Section.lines, Section.titled, List.flatMap_cons,
    List.flatMap_nil, List.length_append, List.length_cons, List.length_map, List.length_nil,
    length_rows_keyboard, length_rows_stack hInv, length_rows_register]

/-- The parts of a listing are told from the whole. -/
theorem lines_eq_of_listing_eq {machine other : Machine} (hMachine : machine.Invariant)
    (hOther : other.Invariant) (hSame : machine.listing = other.listing) :
    machine.nameLines = other.nameLines ∧ machine.numberLines = other.numberLines ∧
      machine.memoryLines = other.memoryLines ∧ machine.tableLines = other.tableLines := by
  have hText := congrArg String.toList hSame
  rw [toList_listing, toList_listing, List.append_cancel_left_eq] at hText
  have hLines := congrArg (List.splitOn '\n') hText
  rw [splitOn_listing, splitOn_listing] at hLines
  have hTableLength : machine.tableLines.length = other.tableLines.length :=
    (length_tableLines hMachine).trans (length_tableLines hOther).symm
  obtain ⟨hFront, hTable⟩ := List.append_inj' hLines hTableLength
  obtain ⟨hNumbers, hMemory⟩ := eq_of_append_last (machine.heading_not_mem_memoryLines machine)
    (machine.heading_not_mem_memoryLines other) hFront
  have hNumberLength : machine.numberLines.length = other.numberLines.length :=
    machine.length_numberLines.trans other.length_numberLines.symm
  obtain ⟨hName, hNumber⟩ := List.append_inj' hNumbers hNumberLength
  exact ⟨hName, hNumber, hMemory, hTable⟩

/-! ## What the parts show -/

theorem name_eq_of_nameLines_eq {machine other : Machine}
    (hLines : machine.nameLines = other.nameLines) : machine.name = other.name := by
  have hText := congrArg (List.intercalate ['\n']) hLines
  rw [nameLines, nameLines, List.intercalate_splitOn, List.intercalate_splitOn] at hText
  exact String.toList_inj.mp (indented_injective hText)

theorem memory_eq_of_memoryLines_eq {machine other : Machine}
    (hLines : machine.memoryLines = other.memoryLines) : machine.memory = other.memory := by
  have hRows := List.map_injective_iff.mpr indented_injective hLines
  exact Memory.toList_injective (memoryRows_text_injective hRows)

/-- Equal lines of numbers show equal numbers. -/
theorem numbers_eq_of_numberLines_eq {machine other : Machine}
    (hLines : machine.numberLines = other.numberLines) :
    machine.opcode = other.opcode ∧ machine.counter = other.counter ∧
      machine.index = other.index ∧ machine.delay = other.delay ∧ machine.sound = other.sound := by
  have hLine {value number : Nat}
      (hNumeral : indented (Numeral.markedHex 4 value) = indented (Numeral.markedHex 4 number)) :
      value = number := Numeral.markedHex_inj (indented_injective hNumeral)
  simp only [numberLines, numberSections, Section.lines, Section.ofNumber, Section.titled,
    List.flatMap_cons, List.flatMap_nil, List.map_cons, List.map_nil, List.cons_append,
    List.nil_append, List.cons.injEq, and_true] at hLines
  obtain ⟨-, hOpcode, -, hCounter, -, hIndex, -, hDelay, -, hSound⟩ := hLines
  refine ⟨UInt16.toNat_inj.mp (hLine hOpcode), UInt16.toNat_inj.mp (hLine hCounter),
    UInt16.toNat_inj.mp (hLine hIndex), ?_, ?_⟩
  · exact congrArg Countdown.mk (UInt8.toNat_inj.mp (hLine hDelay))
  · exact congrArg Countdown.mk (UInt8.toNat_inj.mp (hLine hSound))

/-- The saved addresses are the places in front of the first zero. -/
theorem takeWhile_stackPlaces {machine : Machine} (hInv : machine.Invariant) :
    machine.stackPlaces.takeWhile (· ≠ 0) = machine.stack.reverse := by
  have hSaved : ∀ address ∈ machine.stack.reverse, decide (address ≠ 0) = true := by
    intro address hMem
    obtain ⟨hLow, -⟩ := hInv.stack_range address (List.mem_reverse.mp hMem)
    refine decide_eq_true ?_
    rintro rfl
    exact absurd hLow (by decide)
  rw [stackPlaces, List.takeWhile_append_of_pos hSaved, List.takeWhile_replicate,
    if_neg (by decide), List.append_nil]

theorem stack_eq_of_stackPlaces_eq {machine other : Machine} (hMachine : machine.Invariant)
    (hOther : other.Invariant) (hPlaces : machine.stackPlaces = other.stackPlaces) :
    machine.stack = other.stack := by
  rw [← List.reverse_inj, ← takeWhile_stackPlaces hMachine, ← takeWhile_stackPlaces hOther, hPlaces]

/-- Equal tables show equal levels, return addresses and registers. -/
theorem tables_eq_of_tableLines_eq {machine other : Machine} (hMachine : machine.Invariant)
    (hOther : other.Invariant) (hLines : machine.tableLines = other.tableLines) :
    machine.keypad.levels = other.keypad.levels ∧ machine.stack = other.stack ∧
      machine.registers = other.registers := by
  simp only [tableLines, tableSections, Section.lines, Section.titled, List.flatMap_cons,
    List.flatMap_nil, List.cons_append, List.append_assoc, List.cons.injEq] at hLines
  -- the rows of a table end where the next heading begins, as many lines after its own heading
  obtain ⟨hKeyboardRows, hLater⟩ := List.append_inj hLines.2 (by
    rw [List.length_map, List.length_map, length_rows_keyboard, length_rows_keyboard])
  obtain ⟨hStackRows, hLast⟩ := List.append_inj (List.cons.inj hLater).2 (by
    rw [List.length_map, List.length_map, length_rows_stack hMachine, length_rows_stack hOther])
  obtain ⟨hRegisterRows, -⟩ := List.append_inj (List.cons.inj hLast).2 (by
    rw [List.length_map, List.length_map, length_rows_register, length_rows_register])
  have hRows {rows lines : List (List Char)} (hSame : rows.map indented = lines.map indented) :
      rows = lines := List.map_injective_iff.mpr indented_injective hSame
  have hLevels := levelRows_injective (hRows hKeyboardRows)
  have hPlaces := numberRows_injective (hRows hStackRows)
  have hValues := numberRows_injective (hRows hRegisterRows)
  refine ⟨Vector.toList_inj.mp hLevels, ?_, ?_⟩
  · refine stack_eq_of_stackPlaces_eq hMachine hOther ?_
    exact List.map_injective_iff.mpr (fun _ _ => UInt16.toNat_inj.mp) hPlaces
  · refine Registers.toList_injective ?_
    exact List.map_injective_iff.mpr (fun _ _ => UInt8.toNat_inj.mp) hValues

/-- Two machines that a host can reach have one listing exactly if they agree on everything that a
listing shows: the name, the numbers, the memory, the levels of the keys, the registers and the
return addresses, and so also how many of them are saved. -/
theorem listing_determines_machine {machine other : Machine} (hMachine : machine.Reachable)
    (hOther : other.Reachable) :
    machine.listing = other.listing ↔
      machine.name = other.name ∧ machine.opcode = other.opcode ∧
        machine.counter = other.counter ∧ machine.index = other.index ∧
        machine.delay = other.delay ∧ machine.sound = other.sound ∧
        machine.memory = other.memory ∧ machine.keypad.levels = other.keypad.levels ∧
        machine.registers = other.registers ∧ machine.stack = other.stack := by
  constructor
  · intro hSame
    obtain ⟨hName, hNumbers, hMemory, hTables⟩ :=
      lines_eq_of_listing_eq hMachine.invariant hOther.invariant hSame
    obtain ⟨hOpcode, hCounter, hIndex, hDelay, hSound⟩ := numbers_eq_of_numberLines_eq hNumbers
    obtain ⟨hLevels, hStack, hRegisters⟩ :=
      tables_eq_of_tableLines_eq hMachine.invariant hOther.invariant hTables
    exact ⟨name_eq_of_nameLines_eq hName, hOpcode, hCounter, hIndex, hDelay, hSound,
      memory_eq_of_memoryLines_eq hMemory, hLevels, hRegisters, hStack⟩
  · rintro ⟨hName, hOpcode, hCounter, hIndex, hDelay, hSound, hMemory, hLevels, hRegisters, hStack⟩
    have hSections : machine.sections = other.sections := by
      simp only [sections, stackPlaces, hName, hOpcode, hCounter, hIndex, hDelay, hSound, hMemory,
        hLevels, hRegisters, hStack]
    unfold listing
    rw [hSections]

/-- Calls of a program that calls itself over and over, whose name imitates a heading. -/
def imitatingActions (calls : Nat) : List Action :=
  .loadProgram ⟨"one\n\tMemory :\n\t\ttwo", [0x22, 0x02, 0x22, 0x02]⟩ ::
    List.replicate calls .step

/-- The third call leaves the same opcode and counter behind as the second one, and saves the same
address once more.  The listings differ because of that address. -/
theorem listing_determines_machine_calling :
    let twice := ((fresh (Entropy.ofWords fun _ => 0)).run (imitatingActions 2)).2
    let again := ((fresh (Entropy.ofWords fun _ => 0)).run (imitatingActions 3)).2
    twice.Reachable ∧ again.Reachable ∧ twice.opcode = again.opcode ∧
      twice.counter = again.counter ∧ twice.stack = [0x204, 0x202] ∧
      again.stack = [0x204, 0x204, 0x202] ∧ twice.listing ≠ again.listing := by
  intro twice again
  have hTwice : twice.Reachable := ⟨_, imitatingActions 2, by decide, rfl⟩
  have hAgain : again.Reachable := ⟨_, imitatingActions 3, by decide, rfl⟩
  have hStates : twice.opcode = again.opcode ∧ twice.counter = again.counter ∧
      twice.stack = [0x204, 0x202] ∧ again.stack = [0x204, 0x204, 0x202] := by
    decide +kernel
  obtain ⟨hOpcode, hCounter, hSaved, hOnceMore⟩ := hStates
  refine ⟨hTwice, hAgain, hOpcode, hCounter, hSaved, hOnceMore, ?_⟩
  intro hSame
  obtain ⟨-, -, -, -, -, -, -, -, -, hStack⟩ :=
    (listing_determines_machine hTwice hAgain).mp hSame
  rw [hSaved, hOnceMore] at hStack
  exact absurd hStack (by decide)

end Machine
end ChipEight
