import ChipEight.Instruction.Basic
import ChipEight.Opcode

/-!
# Decoding and encoding opcodes

`Instruction.decode` reads an opcode as the instruction it stands for, or reports
the opcode as unsupported.  `Instruction.encode` is the opcode number of an
instruction, read off the digit pattern of its form; on instructions whose
operands fit their digits the two belong together.
-/

namespace ChipEight

/-- The report that an opcode belongs to no instruction. -/
structure UnsupportedOpcode where
  opcode : Opcode
deriving DecidableEq

namespace UnsupportedOpcode

def message (problem : UnsupportedOpcode) : String :=
  "An unsupported opcode was used "
    ++ String.ofList (Numeral.markedHex 4 problem.opcode.toNat) ++ "."

end UnsupportedOpcode

namespace ArithOp

/-- The operation that a last digit selects in group 8. -/
def ofSelector? : Nat → Option ArithOp
  | 0x0 => some .assign
  | 0x1 => some .or
  | 0x2 => some .and
  | 0x3 => some .xor
  | 0x4 => some .add
  | 0x5 => some .sub
  | 0x6 => some .shiftRight
  | 0x7 => some .subReverse
  | 0xE => some .shiftLeft
  | _ => none

/-- The last digit that selects an operation in group 8. -/
def selector : ArithOp → Nat
  | .assign => 0x0
  | .or => 0x1
  | .and => 0x2
  | .xor => 0x3
  | .add => 0x4
  | .sub => 0x5
  | .shiftRight => 0x6
  | .subReverse => 0x7
  | .shiftLeft => 0xE

/-- Every operation is the one that its selector selects. -/
theorem ofSelector?_selector (op : ArithOp) : ofSelector? op.selector = some op := by
  cases op <;> rfl

end ArithOp

namespace Instruction

/-- The instruction of group E that the last two digits select. -/
def ofKeySelector? (x : Register) : Nat → Option (Instruction Register)
  | 0x9E => some (.skipPressed x)
  | 0xA1 => some (.skipReleased x)
  | _ => none

/-- The instruction of group F that the last two digits select. -/
def ofDeviceSelector? (x : Register) : Nat → Option (Instruction Register)
  | 0x07 => some (.readDelay x)
  | 0x0A => some (.awaitKey x)
  | 0x15 => some (.setDelay x)
  | 0x18 => some (.setSound x)
  | 0x1E => some (.addIndex x)
  | 0x29 => some (.pointGlyph x)
  | 0x33 => some (.storeDecimal x)
  | 0x55 => some (.storeFront x)
  | 0x65 => some (.loadFront x)
  | _ => none

/-- The instruction that an opcode stands for, if any. -/
def decode? (opcode : Opcode) : Option (Instruction Register) :=
  match opcode.group with
  | 0x0 =>
    if opcode = 0x00E0 then some .clear
    else if opcode = 0x00EE then some .ret
    else none
  | 0x1 => some (.jump opcode.address)
  | 0x2 => some (.call opcode.address)
  | 0x3 => some (.skipEqual opcode.x opcode.constant)
  | 0x4 => some (.skipNotEqual opcode.x opcode.constant)
  | 0x5 => if opcode.lastDigit = 0 then some (.skipSame opcode.x opcode.y) else none
  | 0x6 => some (.set opcode.x opcode.constant)
  | 0x7 => some (.add opcode.x opcode.constant)
  | 0x8 =>
    (ArithOp.ofSelector? opcode.lastDigit.toNat).map fun op =>
      .arith op opcode.x opcode.y
  | 0x9 => if opcode.lastDigit = 0 then some (.skipDifferent opcode.x opcode.y) else none
  | 0xA => some (.setIndex opcode.address)
  | 0xB => some (.jumpOffset opcode.address)
  | 0xC => some (.random opcode.x opcode.constant)
  | 0xD => some (.draw opcode.x opcode.y opcode.lastDigit)
  | 0xE => ofKeySelector? opcode.x opcode.constant.toNat
  | _ => ofDeviceSelector? opcode.x opcode.constant.toNat

/-- The instruction that an opcode stands for; an opcode that stands for none is
reported itself. -/
def decode (opcode : Opcode) : Except UnsupportedOpcode (Instruction Register) :=
  match decode? opcode with
  | some instruction => .ok instruction
  | none => .error ⟨opcode⟩

/-- The opcode number with the given group, `X` digit and byte constant. -/
def registerConstant (group : Nat) (x : Register) (constant : Nat) : Nat :=
  0x1000 * group + 0x100 * x.val + constant

/-- The opcode number with the given group, `X` and `Y` digits and last digit. -/
def registerPair (group : Nat) (x y : Register) (lastDigit : Nat) : Nat :=
  registerConstant group x (0x10 * y.val + lastDigit)

/-- The opcode number of an instruction: the digit pattern of its form with the
operands filled in. -/
def encode : Instruction Register → Nat
  | .clear => 0x00E0
  | .ret => 0x00EE
  | .jump address => 0x1000 + address.toNat
  | .call address => 0x2000 + address.toNat
  | .skipEqual x constant => registerConstant 0x3 x constant.toNat
  | .skipNotEqual x constant => registerConstant 0x4 x constant.toNat
  | .skipSame x y => registerPair 0x5 x y 0
  | .set x constant => registerConstant 0x6 x constant.toNat
  | .add x constant => registerConstant 0x7 x constant.toNat
  | .arith op x y => registerPair 0x8 x y op.selector
  | .skipDifferent x y => registerPair 0x9 x y 0
  | .setIndex address => 0xA000 + address.toNat
  | .jumpOffset address => 0xB000 + address.toNat
  | .random x mask => registerConstant 0xC x mask.toNat
  | .draw x y height => registerPair 0xD x y height.toNat
  | .skipPressed x => registerConstant 0xE x 0x9E
  | .skipReleased x => registerConstant 0xE x 0xA1
  | .readDelay x => registerConstant 0xF x 0x07
  | .awaitKey x => registerConstant 0xF x 0x0A
  | .setDelay x => registerConstant 0xF x 0x15
  | .setSound x => registerConstant 0xF x 0x18
  | .addIndex x => registerConstant 0xF x 0x1E
  | .pointGlyph x => registerConstant 0xF x 0x29
  | .storeDecimal x => registerConstant 0xF x 0x33
  | .storeFront x => registerConstant 0xF x 0x55
  | .loadFront x => registerConstant 0xF x 0x65

/-- The operands fit the digits that an opcode has for them: three for an address
and one for the height of a sprite. -/
def Fits : Instruction Register → Prop
  | .jump address | .call address | .setIndex address | .jumpOffset address =>
    address.toNat < 0x1000
  | .draw _ _ height => height.toNat < 0x10
  | _ => True

end Instruction
end ChipEight
