import ChipEight.Instruction.Basic
import ChipEight.Numeral

/-!
# Assembly text

An instruction is written as an operation word and its operands.  The word alone
does not tell the form, as several forms share one word; the operands do.  A
register is a `V` with its bare hexadecimal number, a constant is a marked
hexadecimal numeral whose least width depends on the form.
-/

namespace ChipEight
namespace Assembly

inductive Word where
  | cls | ret | jp | call | se | sne | ld | add | or | and | xor | sub | shr
  | subn | shl | rnd | drw | skp | sknp
deriving DecidableEq

def Word.text : Word → List Char
  | .cls => ['C', 'L', 'S']
  | .ret => ['R', 'E', 'T']
  | .jp => ['J', 'P']
  | .call => ['C', 'A', 'L', 'L']
  | .se => ['S', 'E']
  | .sne => ['S', 'N', 'E']
  | .ld => ['L', 'D']
  | .add => ['A', 'D', 'D']
  | .or => ['O', 'R']
  | .and => ['A', 'N', 'D']
  | .xor => ['X', 'O', 'R']
  | .sub => ['S', 'U', 'B']
  | .shr => ['S', 'H', 'R']
  | .subn => ['S', 'U', 'B', 'N']
  | .shl => ['S', 'H', 'L']
  | .rnd => ['R', 'N', 'D']
  | .drw => ['D', 'R', 'W']
  | .skp => ['S', 'K', 'P']
  | .sknp => ['S', 'K', 'N', 'P']

/-- The operands that have a fixed name. -/
inductive Place where
  | index
  /-- The memory that the index register points at. -/
  | atIndex
  | delay
  | sound
  | key
  | glyph
  | decimal
deriving DecidableEq

def Place.text : Place → List Char
  | .index => ['I']
  | .atIndex => ['[', 'I', ']']
  | .delay => ['D', 'T']
  | .sound => ['S', 'T']
  | .key => ['K']
  | .glyph => ['F']
  | .decimal => ['B']

inductive Operand where
  | register (number : Nat)
  /-- A constant with the least width of its numeral. -/
  | constant (width value : Nat)
  | place (name : Place)
deriving DecidableEq

def Operand.text : Operand → List Char
  | .register number => 'V' :: Numeral.hex number
  | .constant width value => Numeral.markedHex width value
  | .place name => name.text

end Assembly

/-- A line of assembly: an operation word and its operands. -/
structure Assembly where
  word : Assembly.Word
  operands : List Assembly.Operand
deriving DecidableEq

namespace Assembly

/-- The operands after the word: a blank in front of the first and a comma with a
blank in front of each later one. -/
def operandText : List Operand → List Char
  | [] => []
  | first :: later => ' ' :: first.text ++ later.flatMap fun operand => ',' :: ' ' :: operand.text

def text (line : Assembly) : List Char :=
  line.word.text ++ operandText line.operands

end Assembly

def ArithOp.word : ArithOp → Assembly.Word
  | .assign => .ld
  | .or => .or
  | .and => .and
  | .xor => .xor
  | .add => .add
  | .sub => .sub
  | .shiftRight => .shr
  | .subReverse => .subn
  | .shiftLeft => .shl

namespace Instruction

def assembly : Instruction Nat → Assembly
  | .clear => ⟨.cls, []⟩
  | .ret => ⟨.ret, []⟩
  | .jump address => ⟨.jp, [.constant 3 address.toNat]⟩
  | .call address => ⟨.call, [.constant 3 address.toNat]⟩
  | .skipEqual x constant => ⟨.se, [.register x, .constant 2 constant.toNat]⟩
  | .skipNotEqual x constant => ⟨.sne, [.register x, .constant 2 constant.toNat]⟩
  | .skipSame x y => ⟨.se, [.register x, .register y]⟩
  | .set x constant => ⟨.ld, [.register x, .constant 2 constant.toNat]⟩
  | .add x constant => ⟨.add, [.register x, .constant 2 constant.toNat]⟩
  | .arith op x y => ⟨op.word, [.register x, .register y]⟩
  | .skipDifferent x y => ⟨.sne, [.register x, .register y]⟩
  | .setIndex address => ⟨.ld, [.place .index, .constant 3 address.toNat]⟩
  | .jumpOffset address => ⟨.jp, [.register 0, .constant 3 address.toNat]⟩
  | .random x mask => ⟨.rnd, [.register x, .constant 2 mask.toNat]⟩
  | .draw x y height => ⟨.drw, [.register x, .register y, .constant 1 height.toNat]⟩
  | .skipPressed x => ⟨.skp, [.register x]⟩
  | .skipReleased x => ⟨.sknp, [.register x]⟩
  | .readDelay x => ⟨.ld, [.register x, .place .delay]⟩
  | .awaitKey x => ⟨.ld, [.register x, .place .key]⟩
  | .setDelay x => ⟨.ld, [.place .delay, .register x]⟩
  | .setSound x => ⟨.ld, [.place .sound, .register x]⟩
  | .addIndex x => ⟨.add, [.place .index, .register x]⟩
  | .pointGlyph x => ⟨.ld, [.place .glyph, .register x]⟩
  | .storeDecimal x => ⟨.ld, [.place .decimal, .register x]⟩
  | .storeFront x => ⟨.ld, [.place .atIndex, .register x]⟩
  | .loadFront x => ⟨.ld, [.register x, .place .atIndex]⟩

def text (instruction : Instruction Nat) : String :=
  String.ofList instruction.assembly.text

end Instruction
end ChipEight
