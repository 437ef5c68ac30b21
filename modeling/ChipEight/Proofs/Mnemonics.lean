import ChipEight.Instruction.Assembly
import ChipEight.Program
import ChipEight.Proofs.Numerals
import ChipEight.Proofs.OpcodeTable

/-!
# Reading assembly text back

Several forms of instructions share an operation word, and registers and constants are not bounded
by the format of their numerals.  Still the text of an instruction belongs to one instruction only.
This module shows it by reading the text back: the blanks cut the line into its word and its
operands, the first symbols of an operand tell its kind, and the word with the kinds of the
operands tells the form.

* `Assembly.Word.ofText?`, `Assembly.Operand.ofText?`, `Instruction.ofAssembly?` — the parts of a
  reader;
* `Assembly.splitOn_text` — the pieces of a line are its word and its operands;
* `Instruction.ofText?_text` — every instruction is read back from its text;
* `Instruction.table_and_text_are_faithful` — opcodes, instructions and lines of a trace.
-/

namespace ChipEight

namespace Assembly

/-! ## The symbols of a line -/

/-- The two symbols that separate the parts of a line. -/
def isSeparator (symbol : Char) : Bool := symbol == ' ' || symbol == ','

theorem isSeparator_iff {symbol : Char} :
    isSeparator symbol = true ↔ symbol = ' ' ∨ symbol = ',' := by
  rw [isSeparator, Bool.or_eq_true, beq_iff_eq, beq_iff_eq]

theorem isAlphanum_of_isSeparator {symbol : Char} (hSeparator : isSeparator symbol = true) :
    symbol.isAlphanum = false := by
  rcases isSeparator_iff.mp hSeparator with rfl | rfl <;> decide

theorem Word.not_mem_text (word : Word) {symbol : Char} (hSeparator : isSeparator symbol = true) :
    symbol ∉ word.text := by
  rcases isSeparator_iff.mp hSeparator with rfl | rfl <;> cases word <;> decide

theorem Place.not_mem_text (place : Place) {symbol : Char}
    (hSeparator : isSeparator symbol = true) : symbol ∉ place.text := by
  rcases isSeparator_iff.mp hSeparator with rfl | rfl <;> cases place <;> decide

theorem Operand.not_mem_text (operand : Operand) {symbol : Char}
    (hSeparator : isSeparator symbol = true) : symbol ∉ operand.text := by
  have hSymbol := isAlphanum_of_isSeparator hSeparator
  cases operand with
  | register number =>
    rw [text, List.mem_cons, not_or]
    refine ⟨?_, Numeral.not_mem_hex hSymbol number⟩
    rintro rfl
    contradiction
  | constant width value => exact Numeral.not_mem_markedHex hSymbol width value
  | place name => exact name.not_mem_text hSeparator

/-! ## Cutting a line into its parts -/

/-- The symbols of a line apart from its commas. -/
def withoutCommas (text : List Char) : List Char := text.filter (· ≠ ',')

theorem withoutCommas_of_not_mem {text : List Char} (hText : ',' ∉ text) :
    withoutCommas text = text := by
  refine List.filter_eq_self.mpr fun symbol hMem => decide_eq_true ?_
  rintro rfl
  exact hText hMem

/-- Each operand is left with a blank in front of it. -/
theorem withoutCommas_operandText (operands : List Operand) :
    withoutCommas (operandText operands) = operands.flatMap fun operand => ' ' :: operand.text := by
  have hOperand (operand : Operand) : withoutCommas operand.text = operand.text :=
    withoutCommas_of_not_mem (operand.not_mem_text rfl)
  have hFirst (operand : Operand) : withoutCommas (' ' :: operand.text) = ' ' :: operand.text :=
    congrArg (List.cons ' ') (hOperand operand)
  have hLater (operand : Operand) :
      withoutCommas (',' :: ' ' :: operand.text) = ' ' :: operand.text := hFirst operand
  cases operands with
  | nil => rfl
  | cons first later =>
    calc withoutCommas (operandText (first :: later))
        = withoutCommas (' ' :: first.text) ++
            later.flatMap fun operand => withoutCommas (',' :: ' ' :: operand.text) := by
          rw [operandText, withoutCommas, List.filter_append, List.filter_flatMap]
          rfl
      _ = (first :: later).flatMap fun operand => ' ' :: operand.text := by
          simp only [hFirst, hLater, List.flatMap_cons]

/-- A blank in front of each text but the first separates them. -/
theorem splitOn_blanks {first : List Char} {texts : List (List Char)} (hFirst : ' ' ∉ first)
    (hTexts : ∀ text ∈ texts, ' ' ∉ text) :
    (first ++ texts.flatMap fun text => ' ' :: text).splitOn ' ' = first :: texts := by
  induction texts generalizing first with
  | nil => rw [List.flatMap_nil, List.append_nil, List.splitOn_eq_singleton hFirst]
  | cons text texts ih =>
    rw [List.flatMap_cons, List.cons_append, List.splitOn_append_cons_self_of_not_mem hFirst,
      ih (hTexts text List.mem_cons_self) fun later hLater =>
        hTexts later (List.mem_cons_of_mem _ hLater)]

/-- Without its commas, a line falls into its word and its operands. -/
theorem splitOn_text (line : Assembly) :
    (withoutCommas line.text).splitOn ' ' = line.word.text :: line.operands.map Operand.text := by
  have hLine : withoutCommas line.text =
      line.word.text ++ (line.operands.map Operand.text).flatMap fun text => ' ' :: text := by
    rw [text, withoutCommas, List.filter_append, ← withoutCommas, ← withoutCommas,
      withoutCommas_of_not_mem (line.word.not_mem_text rfl), withoutCommas_operandText,
      List.flatMap_map]
  rw [hLine]
  refine splitOn_blanks (line.word.not_mem_text rfl) ?_
  intro text hMem
  obtain ⟨operand, -, rfl⟩ := List.mem_map.mp hMem
  exact operand.not_mem_text rfl

/-! ## Reading the parts -/

/-- All operation words. -/
def Word.all : List Word :=
  [.cls, .ret, .jp, .call, .se, .sne, .ld, .add, .or, .and, .xor, .sub, .shr, .subn, .shl, .rnd,
    .drw, .skp, .sknp]

def Word.ofText? (text : List Char) : Option Word := Word.all.find? fun word => word.text = text

theorem Word.ofText?_text (word : Word) : Word.ofText? word.text = some word := by
  cases word <;> rfl

/-- What an operand text stands for.  The least width of a constant cannot be told from its
numeral, and is left at zero. -/
def Operand.ofText? : List Char → Option Operand
  | 'V' :: digits => some (.register (Numeral.read 16 digits))
  | '0' :: 'x' :: digits => some (.constant 0 (Numeral.read 16 digits))
  | ['I'] => some (.place .index)
  | ['[', 'I', ']'] => some (.place .atIndex)
  | ['D', 'T'] => some (.place .delay)
  | ['S', 'T'] => some (.place .sound)
  | ['K'] => some (.place .key)
  | ['F'] => some (.place .glyph)
  | ['B'] => some (.place .decimal)
  | _ => none

/-- The operand without the least width of its numeral. -/
def Operand.bare : Operand → Operand
  | .constant _ value => .constant 0 value
  | operand => operand

theorem Operand.ofText?_text (operand : Operand) :
    Operand.ofText? operand.text = some operand.bare := by
  cases operand with
  | register number =>
    show some (Operand.register (Numeral.read 16 (Numeral.hex number))) = _
    rw [Numeral.read_hex]
    rfl
  | constant width value =>
    show some (Operand.constant 0 (Numeral.read 16 (Numeral.padded width _))) = _
    rw [Numeral.read_padded, Numeral.read_hex, bare]
  | place name => cases name <;> rfl

end Assembly

namespace Instruction

open Assembly

/-- The instruction with a word and operands.  Most words are shared by several forms, which
the kinds of the operands tell apart. -/
def ofAssembly? : Word → List Operand → Option (Instruction Nat)
  | .cls, [] => some .clear
  | .ret, [] => some .ret
  | .jp, [.constant _ address] => some (.jump (UInt16.ofNat address))
  | .jp, [.register 0, .constant _ address] => some (.jumpOffset (UInt16.ofNat address))
  | .call, [.constant _ address] => some (.call (UInt16.ofNat address))
  | .se, [.register x, .constant _ constant] => some (.skipEqual x (UInt8.ofNat constant))
  | .se, [.register x, .register y] => some (.skipSame x y)
  | .sne, [.register x, .constant _ constant] => some (.skipNotEqual x (UInt8.ofNat constant))
  | .sne, [.register x, .register y] => some (.skipDifferent x y)
  | .ld, [.register x, .constant _ constant] => some (.set x (UInt8.ofNat constant))
  | .ld, [.register x, .register y] => some (.arith .assign x y)
  | .ld, [.place .index, .constant _ address] => some (.setIndex (UInt16.ofNat address))
  | .ld, [.register x, .place .delay] => some (.readDelay x)
  | .ld, [.register x, .place .key] => some (.awaitKey x)
  | .ld, [.place .delay, .register x] => some (.setDelay x)
  | .ld, [.place .sound, .register x] => some (.setSound x)
  | .ld, [.place .glyph, .register x] => some (.pointGlyph x)
  | .ld, [.place .decimal, .register x] => some (.storeDecimal x)
  | .ld, [.place .atIndex, .register x] => some (.storeFront x)
  | .ld, [.register x, .place .atIndex] => some (.loadFront x)
  | .add, [.register x, .constant _ constant] => some (.add x (UInt8.ofNat constant))
  | .add, [.register x, .register y] => some (.arith .add x y)
  | .add, [.place .index, .register x] => some (.addIndex x)
  | .or, [.register x, .register y] => some (.arith .or x y)
  | .and, [.register x, .register y] => some (.arith .and x y)
  | .xor, [.register x, .register y] => some (.arith .xor x y)
  | .sub, [.register x, .register y] => some (.arith .sub x y)
  | .shr, [.register x, .register y] => some (.arith .shiftRight x y)
  | .subn, [.register x, .register y] => some (.arith .subReverse x y)
  | .shl, [.register x, .register y] => some (.arith .shiftLeft x y)
  | .rnd, [.register x, .constant _ mask] => some (.random x (UInt8.ofNat mask))
  | .drw, [.register x, .register y, .constant _ height] =>
    some (.draw x y (UInt8.ofNat height))
  | .skp, [.register x] => some (.skipPressed x)
  | .sknp, [.register x] => some (.skipReleased x)
  | _, _ => none

theorem ofAssembly?_assembly (instruction : Instruction Nat) :
    ofAssembly? instruction.assembly.word (instruction.assembly.operands.map Operand.bare) =
      some instruction := by
  have hAddress (address : UInt16) : UInt16.ofNat address.toNat = address := UInt16.ofNat_toNat
  have hConstant (constant : UInt8) : UInt8.ofNat constant.toNat = constant := UInt8.ofNat_toNat
  -- where there is a constant, its numeral is all that has to be taken back
  cases instruction with
  | jump address => exact congrArg (some ∘ jump) (hAddress address)
  | call address => exact congrArg (some ∘ call) (hAddress address)
  | setIndex address => exact congrArg (some ∘ setIndex) (hAddress address)
  | jumpOffset address => exact congrArg (some ∘ jumpOffset) (hAddress address)
  | skipEqual x constant => exact congrArg (some ∘ skipEqual x) (hConstant constant)
  | skipNotEqual x constant => exact congrArg (some ∘ skipNotEqual x) (hConstant constant)
  | set x constant => exact congrArg (some ∘ set x) (hConstant constant)
  | add x constant => exact congrArg (some ∘ add x) (hConstant constant)
  | random x mask => exact congrArg (some ∘ random x) (hConstant mask)
  | draw x y height => exact congrArg (some ∘ draw x y) (hConstant height)
  | arith op x y => cases op <;> rfl
  | _ => rfl

/-- The instruction that a line of assembly text stands for. -/
def ofText? (text : String) : Option (Instruction Nat) :=
  match (withoutCommas text.toList).splitOn ' ' with
  | [] => none
  | word :: operands =>
    (Word.ofText? word).bind fun word =>
      (operands.mapM Operand.ofText?).bind fun operands => ofAssembly? word operands

/-- Every instruction is read back from its text, whatever the sizes of its operands. -/
theorem ofText?_text (instruction : Instruction Nat) :
    ofText? instruction.text = some instruction := by
  have hOperands (operands : List Operand) :
      (operands.map Operand.text).mapM Operand.ofText? = some (operands.map Operand.bare) := by
    induction operands with
    | nil => rfl
    | cons operand operands ih =>
      rw [List.map_cons, List.mapM_cons, Operand.ofText?_text, ih]
      rfl
  rw [ofText?, Instruction.text, String.toList_ofList, splitOn_text]
  show (Word.ofText? instruction.assembly.word.text).bind _ = _
  rw [Word.ofText?_text, Option.bind_some, hOperands, Option.bind_some]
  exact ofAssembly?_assembly instruction

theorem text_injective : Function.Injective text := by
  intro instruction other hSame
  have hRead := congrArg ofText? hSame
  rw [ofText?_text, ofText?_text] at hRead
  exact Option.some.inj hRead

/-! ## Lines of a trace -/

theorem numbered_injective : Function.Injective numbered := by
  have hBack (instruction : Instruction Register) :
      instruction.numbered.map (Fin.ofNat 16) = instruction := by
    cases instruction <;> simp only [numbered, map, Fin.ofNat_val_eq_self]
  exact Function.LeftInverse.injective hBack

/-- The line of a trace for an instruction: where it stands in the memory, and its text. -/
def traceLine (counter : UInt16) (instruction : Instruction Register) : String :=
  String.ofList (Numeral.markedHex 4 counter.toNat) ++ ": " ++ instruction.numbered.text

/-- A line of a trace belongs to one instruction at one place. -/
theorem traceLine_inj {counter place : UInt16} {instruction other : Instruction Register}
    (hSame : traceLine counter instruction = traceLine place other) :
    counter = place ∧ instruction = other := by
  have hLine := congrArg String.toList hSame
  simp only [traceLine, String.toList_append, String.toList_ofList, List.append_assoc] at hLine
  have hColon : Char.isAlphanum ':' = false := rfl
  obtain ⟨hCounter, hText⟩ := Numeral.markedHex_append_inj hColon hLine
  refine ⟨UInt16.toNat_inj.mp hCounter, numbered_injective (text_injective ?_)⟩
  exact String.toList_inj.mp (List.cons.inj hText).2

/-- The decoder reads off the documented table, and reports the opcodes that are not in it.  No
two opcodes stand for one instruction, and no two instructions have one text, however large
their operands are.  So a line of a trace tells which opcode was executed, and where. -/
theorem table_and_text_are_faithful :
    (∀ opcode instruction, decode opcode = .ok instruction ↔ InTable opcode instruction) ∧
      (∀ opcode problem, decode opcode = .error problem ↔
        (∀ instruction, ¬ InTable opcode instruction) ∧ problem = ⟨opcode⟩) ∧
      (∀ opcode other instruction, decode opcode = .ok instruction →
        decode other = .ok instruction → opcode = other) ∧
      (∀ instruction other : Instruction Nat, instruction.text = other.text ↔ instruction = other) ∧
      ∀ opcode other instruction executed counter place, decode opcode = .ok instruction →
        decode other = .ok executed → traceLine counter instruction = traceLine place executed →
          counter = place ∧ opcode = other := by
  refine ⟨fun _ _ => decode_eq_ok_iff_inTable, fun _ _ => decode_eq_error_iff_not_inTable,
    fun _ _ _ => eq_of_decode_eq, fun _ _ => text_injective.eq_iff, ?_⟩
  intro opcode other instruction executed counter place hOpcode hOther hLine
  obtain ⟨hPlace, rfl⟩ := traceLine_inj hLine
  exact ⟨hPlace, eq_of_decode_eq hOpcode hOther⟩

/-- `8124`, whose bytes are `81` and `24`, adds register 2 to register 1.  `8128` stands for
nothing, and the text of the addition is not that of adding the constant 2. -/
theorem table_and_text_are_faithful_adding :
    decode (Opcode.ofBytes 0x81 0x24) = .ok (.arith .add 1 2) ∧ decode 0x8128 = .error ⟨0x8128⟩ ∧
      (arith .add 1 2 : Instruction Nat).text ≠ (add 1 2).text ∧
      traceLine 0x200 (.arith .add 1 2) = traceLine (UInt16.ofNat Program.start) (.arith .add 1 2) ∧
      UInt16.ofNat Program.start = 0x200 ∧
        Opcode.ofDigits 0x8 0x1 0x2 0x4 = Opcode.ofBytes 0x81 0x24 := by
  obtain ⟨hTable, -, -, hText, hTrace⟩ := table_and_text_are_faithful
  have hBytes : decode (Opcode.ofBytes 0x81 0x24) = .ok (.arith .add 1 2) := rfl
  have hDigits : decode (Opcode.ofDigits 0x8 0x1 0x2 0x4) = .ok (.arith .add 1 2) :=
    (hTable _ _).mpr (.addRegister 1 2)
  obtain ⟨hPlace, hOpcode⟩ :=
    hTrace _ _ _ _ (UInt16.ofNat Program.start) 0x200 hDigits hBytes rfl
  refine ⟨hBytes, rfl, ?_, rfl, hPlace, hOpcode⟩
  exact fun hSame => absurd ((hText _ _).mp hSame) (by decide)

end Instruction
end ChipEight
