import ChipEight.Register

/-!
# Instructions

The instruction set as a type.  The operands that name registers are of a type of
their own choice: a machine executes instructions over its sixteen registers, and
assembly text is defined for instructions over all natural register numbers.
-/

namespace ChipEight

/-- The operations that combine two registers into the first of them. -/
inductive ArithOp where
  | assign
  | or
  | and
  | xor
  /-- Addition; the flag is the carry. -/
  | add
  /-- The first less the second; the flag says that nothing was borrowed. -/
  | sub
  /-- The first shifted right; the flag is the bit that falls out. -/
  | shiftRight
  /-- The second less the first; the flag says that nothing was borrowed. -/
  | subReverse
  /-- The first shifted left; the flag is the bit that falls out. -/
  | shiftLeft
deriving DecidableEq

/-- An instruction with register names of type `ρ`. -/
inductive Instruction (ρ : Type) where
  /-- `00E0`: turns the whole screen off. -/
  | clear
  /-- `00EE`: goes back to the last saved return address. -/
  | ret
  /-- `1NNN`: goes to an address. -/
  | jump (address : UInt16)
  /-- `2NNN`: saves the return address and goes to an address. -/
  | call (address : UInt16)
  /-- `3XNN`: skips if the register equals the constant. -/
  | skipEqual (x : ρ) (constant : UInt8)
  /-- `4XNN`: skips if the register differs from the constant. -/
  | skipNotEqual (x : ρ) (constant : UInt8)
  /-- `5XY0`: skips if two registers are equal. -/
  | skipSame (x y : ρ)
  /-- `6XNN`: sets a register. -/
  | set (x : ρ) (constant : UInt8)
  /-- `7XNN`: adds to a register without touching the flag. -/
  | add (x : ρ) (constant : UInt8)
  /-- `8XY0` to `8XY7` and `8XYE`: combines two registers. -/
  | arith (op : ArithOp) (x y : ρ)
  /-- `9XY0`: skips if two registers differ. -/
  | skipDifferent (x y : ρ)
  /-- `ANNN`: sets the index register. -/
  | setIndex (address : UInt16)
  /-- `BNNN`: goes to an address plus register zero. -/
  | jumpOffset (address : UInt16)
  /-- `CXNN`: a random byte, masked. -/
  | random (x : ρ) (mask : UInt8)
  /-- `DXYN`: draws a sprite of some height at the coordinates in two registers. -/
  | draw (x y : ρ) (height : UInt8)
  /-- `EX9E`: skips if the key named by the register is down. -/
  | skipPressed (x : ρ)
  /-- `EXA1`: skips if the key named by the register is up. -/
  | skipReleased (x : ρ)
  /-- `FX07`: reads the delay countdown. -/
  | readDelay (x : ρ)
  /-- `FX0A`: waits for a key press. -/
  | awaitKey (x : ρ)
  /-- `FX15`: sets the delay countdown. -/
  | setDelay (x : ρ)
  /-- `FX18`: sets the sound countdown. -/
  | setSound (x : ρ)
  /-- `FX1E`: adds a register to the index register. -/
  | addIndex (x : ρ)
  /-- `FX29`: points the index register at the glyph of a digit. -/
  | pointGlyph (x : ρ)
  /-- `FX33`: writes the three decimal digits of a register to memory. -/
  | storeDecimal (x : ρ)
  /-- `FX55`: writes the registers up to `x` to memory. -/
  | storeFront (x : ρ)
  /-- `FX65`: reads the registers up to `x` from memory. -/
  | loadFront (x : ρ)
deriving DecidableEq

namespace Instruction

/-- The same instruction with every register renamed. -/
def map {ρ σ : Type} (rename : ρ → σ) : Instruction ρ → Instruction σ
  | .clear => .clear
  | .ret => .ret
  | .jump address => .jump address
  | .call address => .call address
  | .skipEqual x constant => .skipEqual (rename x) constant
  | .skipNotEqual x constant => .skipNotEqual (rename x) constant
  | .skipSame x y => .skipSame (rename x) (rename y)
  | .set x constant => .set (rename x) constant
  | .add x constant => .add (rename x) constant
  | .arith op x y => .arith op (rename x) (rename y)
  | .skipDifferent x y => .skipDifferent (rename x) (rename y)
  | .setIndex address => .setIndex address
  | .jumpOffset address => .jumpOffset address
  | .random x mask => .random (rename x) mask
  | .draw x y height => .draw (rename x) (rename y) height
  | .skipPressed x => .skipPressed (rename x)
  | .skipReleased x => .skipReleased (rename x)
  | .readDelay x => .readDelay (rename x)
  | .awaitKey x => .awaitKey (rename x)
  | .setDelay x => .setDelay (rename x)
  | .setSound x => .setSound (rename x)
  | .addIndex x => .addIndex (rename x)
  | .pointGlyph x => .pointGlyph (rename x)
  | .storeDecimal x => .storeDecimal (rename x)
  | .storeFront x => .storeFront (rename x)
  | .loadFront x => .loadFront (rename x)

/-- The instruction with its registers named by their numbers. -/
def numbered (instruction : Instruction Register) : Instruction Nat :=
  instruction.map Fin.val

end Instruction
end ChipEight
