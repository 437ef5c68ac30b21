import ChipEight.Proofs.Decoding

/-!
# The table of opcodes

The instruction set is documented as a table of digit patterns.  `8XY4` stands for the addition of
register `Y` to register `X`, whatever these two digits are.  This module writes the table down as
a relation, one constructor for each row, without a decoder.

* `Instruction.InTable` — the table;
* `Instruction.encode_of_inTable`, `Instruction.exists_inTable` — a row has the number that the
  instruction makes up, and every instruction whose operands fit their digits has a row;
* `Instruction.decode_eq_ok_iff_inTable`, `Instruction.decode_eq_error_iff_not_inTable` — the
  decoder reads off the table, and reports every opcode that is not in it.
-/

namespace ChipEight

namespace Opcode

/-- A hexadecimal digit. -/
abbrev Digit := Fin 16

/-- The opcode with four given digits. -/
def ofDigits (first second third fourth : Digit) : Opcode :=
  UInt16.ofNat (0x1000 * first.val + 0x100 * second.val + 0x10 * third.val + fourth.val)

/-- The address with three given digits. -/
def addressOf (first second third : Digit) : UInt16 :=
  UInt16.ofNat (0x100 * first.val + 0x10 * second.val + third.val)

/-- The byte with two given digits. -/
def byteOf (first second : Digit) : UInt8 := UInt8.ofNat (0x10 * first.val + second.val)

@[simp] theorem toNat_ofDigits (first second third fourth : Digit) :
    (ofDigits first second third fourth).toNat =
      0x1000 * first.val + 0x100 * second.val + 0x10 * third.val + fourth.val :=
  UInt16.toNat_ofNat_of_lt (by simp only [UInt16.size]; omega)

@[simp] theorem toNat_addressOf (first second third : Digit) :
    (addressOf first second third).toNat = 0x100 * first.val + 0x10 * second.val + third.val :=
  UInt16.toNat_ofNat_of_lt (by simp only [UInt16.size]; omega)

@[simp] theorem toNat_byteOf (first second : Digit) :
    (byteOf first second).toNat = 0x10 * first.val + second.val :=
  UInt8.toNat_ofNat_of_lt (by simp only [UInt8.size]; omega)

/-- An address that fits three digits has them. -/
theorem exists_addressOf {address : UInt16} (hFits : address.toNat < 0x1000) :
    ∃ first second third, address = addressOf first second third := by
  refine ⟨⟨address.toNat / 0x100, by omega⟩, ⟨address.toNat / 0x10 % 16, by omega⟩,
    ⟨address.toNat % 16, by omega⟩, UInt16.toNat_inj.mp ?_⟩
  simp only [toNat_addressOf]
  omega

theorem exists_byteOf (constant : UInt8) : ∃ first second, constant = byteOf first second := by
  have hLt : constant.toNat < 256 := constant.toNat_lt
  refine ⟨⟨constant.toNat / 0x10, by omega⟩, ⟨constant.toNat % 16, by omega⟩,
    UInt8.toNat_inj.mp ?_⟩
  simp only [toNat_byteOf]
  omega

end Opcode

namespace Instruction

open Opcode

/-- The documented table: which digit pattern stands for which instruction, with the digits
`X`, `Y`, `N`, `NN` and `NNN` as its operands. -/
inductive InTable : Opcode → Instruction Register → Prop where
  /-- `00E0` -/
  | clear : InTable (ofDigits 0x0 0x0 0xE 0x0) .clear
  /-- `00EE` -/
  | ret : InTable (ofDigits 0x0 0x0 0xE 0xE) .ret
  /-- `1NNN` -/
  | jump (n₁ n₂ n₃ : Digit) : InTable (ofDigits 0x1 n₁ n₂ n₃) (.jump (addressOf n₁ n₂ n₃))
  /-- `2NNN` -/
  | call (n₁ n₂ n₃ : Digit) : InTable (ofDigits 0x2 n₁ n₂ n₃) (.call (addressOf n₁ n₂ n₃))
  /-- `3XNN` -/
  | skipEqual (x n₁ n₂ : Digit) : InTable (ofDigits 0x3 x n₁ n₂) (.skipEqual x (byteOf n₁ n₂))
  /-- `4XNN` -/
  | skipNotEqual (x n₁ n₂ : Digit) :
      InTable (ofDigits 0x4 x n₁ n₂) (.skipNotEqual x (byteOf n₁ n₂))
  /-- `5XY0` -/
  | skipSame (x y : Digit) : InTable (ofDigits 0x5 x y 0x0) (.skipSame x y)
  /-- `6XNN` -/
  | set (x n₁ n₂ : Digit) : InTable (ofDigits 0x6 x n₁ n₂) (.set x (byteOf n₁ n₂))
  /-- `7XNN` -/
  | add (x n₁ n₂ : Digit) : InTable (ofDigits 0x7 x n₁ n₂) (.add x (byteOf n₁ n₂))
  /-- `8XY0` -/
  | assign (x y : Digit) : InTable (ofDigits 0x8 x y 0x0) (.arith .assign x y)
  /-- `8XY1` -/
  | or (x y : Digit) : InTable (ofDigits 0x8 x y 0x1) (.arith .or x y)
  /-- `8XY2` -/
  | and (x y : Digit) : InTable (ofDigits 0x8 x y 0x2) (.arith .and x y)
  /-- `8XY3` -/
  | xor (x y : Digit) : InTable (ofDigits 0x8 x y 0x3) (.arith .xor x y)
  /-- `8XY4` -/
  | addRegister (x y : Digit) : InTable (ofDigits 0x8 x y 0x4) (.arith .add x y)
  /-- `8XY5` -/
  | sub (x y : Digit) : InTable (ofDigits 0x8 x y 0x5) (.arith .sub x y)
  /-- `8XY6` -/
  | shiftRight (x y : Digit) : InTable (ofDigits 0x8 x y 0x6) (.arith .shiftRight x y)
  /-- `8XY7` -/
  | subReverse (x y : Digit) : InTable (ofDigits 0x8 x y 0x7) (.arith .subReverse x y)
  /-- `8XYE` -/
  | shiftLeft (x y : Digit) : InTable (ofDigits 0x8 x y 0xE) (.arith .shiftLeft x y)
  /-- `9XY0` -/
  | skipDifferent (x y : Digit) : InTable (ofDigits 0x9 x y 0x0) (.skipDifferent x y)
  /-- `ANNN` -/
  | setIndex (n₁ n₂ n₃ : Digit) :
      InTable (ofDigits 0xA n₁ n₂ n₃) (.setIndex (addressOf n₁ n₂ n₃))
  /-- `BNNN` -/
  | jumpOffset (n₁ n₂ n₃ : Digit) :
      InTable (ofDigits 0xB n₁ n₂ n₃) (.jumpOffset (addressOf n₁ n₂ n₃))
  /-- `CXNN` -/
  | random (x n₁ n₂ : Digit) : InTable (ofDigits 0xC x n₁ n₂) (.random x (byteOf n₁ n₂))
  /-- `DXYN` -/
  | draw (x y n : Digit) : InTable (ofDigits 0xD x y n) (.draw x y (byteOf 0x0 n))
  /-- `EX9E` -/
  | skipPressed (x : Digit) : InTable (ofDigits 0xE x 0x9 0xE) (.skipPressed x)
  /-- `EXA1` -/
  | skipReleased (x : Digit) : InTable (ofDigits 0xE x 0xA 0x1) (.skipReleased x)
  /-- `FX07` -/
  | readDelay (x : Digit) : InTable (ofDigits 0xF x 0x0 0x7) (.readDelay x)
  /-- `FX0A` -/
  | awaitKey (x : Digit) : InTable (ofDigits 0xF x 0x0 0xA) (.awaitKey x)
  /-- `FX15` -/
  | setDelay (x : Digit) : InTable (ofDigits 0xF x 0x1 0x5) (.setDelay x)
  /-- `FX18` -/
  | setSound (x : Digit) : InTable (ofDigits 0xF x 0x1 0x8) (.setSound x)
  /-- `FX1E` -/
  | addIndex (x : Digit) : InTable (ofDigits 0xF x 0x1 0xE) (.addIndex x)
  /-- `FX29` -/
  | pointGlyph (x : Digit) : InTable (ofDigits 0xF x 0x2 0x9) (.pointGlyph x)
  /-- `FX33` -/
  | storeDecimal (x : Digit) : InTable (ofDigits 0xF x 0x3 0x3) (.storeDecimal x)
  /-- `FX55` -/
  | storeFront (x : Digit) : InTable (ofDigits 0xF x 0x5 0x5) (.storeFront x)
  /-- `FX65` -/
  | loadFront (x : Digit) : InTable (ofDigits 0xF x 0x6 0x5) (.loadFront x)

/-- The operands of a row fit their digits, and its opcode has the number that the digits of
its instruction make up. -/
theorem encode_of_inTable {opcode : Opcode} {instruction : Instruction Register}
    (hRow : InTable opcode instruction) :
    instruction.Fits ∧ instruction.encode = opcode.toNat := by
  cases hRow with
  | clear | ret => exact ⟨trivial, rfl⟩
  | jump | call | setIndex | jumpOffset =>
    refine ⟨?_, ?_⟩
    · simp only [Fits, toNat_addressOf]
      omega
    · simp only [encode, toNat_addressOf, toNat_ofDigits]
      omega
  | skipEqual | skipNotEqual | set | add | random =>
    refine ⟨trivial, ?_⟩
    simp only [encode, registerConstant, toNat_byteOf, toNat_ofDigits]
    omega
  | draw =>
    refine ⟨?_, ?_⟩
    · simp only [Fits, toNat_byteOf]
      omega
    · simp only [encode, registerPair, registerConstant, toNat_byteOf, toNat_ofDigits]
      omega
  | skipSame | skipDifferent | assign | or | and | xor | addRegister | sub | shiftRight
  | subReverse | shiftLeft =>
    refine ⟨trivial, ?_⟩
    simp only [encode, registerPair, registerConstant, ArithOp.selector, toNat_ofDigits]
    omega
  | _ =>
    refine ⟨trivial, ?_⟩
    simp only [encode, registerConstant, toNat_ofDigits]
    omega

/-- Every instruction whose operands fit their digits has a row. -/
theorem exists_inTable {instruction : Instruction Register} (hFits : instruction.Fits) :
    ∃ opcode, InTable opcode instruction := by
  cases instruction with
  | clear => exact ⟨_, .clear⟩
  | ret => exact ⟨_, .ret⟩
  | jump address =>
    obtain ⟨n₁, n₂, n₃, rfl⟩ := exists_addressOf hFits
    exact ⟨_, .jump n₁ n₂ n₃⟩
  | call address =>
    obtain ⟨n₁, n₂, n₃, rfl⟩ := exists_addressOf hFits
    exact ⟨_, .call n₁ n₂ n₃⟩
  | setIndex address =>
    obtain ⟨n₁, n₂, n₃, rfl⟩ := exists_addressOf hFits
    exact ⟨_, .setIndex n₁ n₂ n₃⟩
  | jumpOffset address =>
    obtain ⟨n₁, n₂, n₃, rfl⟩ := exists_addressOf hFits
    exact ⟨_, .jumpOffset n₁ n₂ n₃⟩
  | skipEqual x constant =>
    obtain ⟨n₁, n₂, rfl⟩ := exists_byteOf constant
    exact ⟨_, .skipEqual x n₁ n₂⟩
  | skipNotEqual x constant =>
    obtain ⟨n₁, n₂, rfl⟩ := exists_byteOf constant
    exact ⟨_, .skipNotEqual x n₁ n₂⟩
  | set x constant =>
    obtain ⟨n₁, n₂, rfl⟩ := exists_byteOf constant
    exact ⟨_, .set x n₁ n₂⟩
  | add x constant =>
    obtain ⟨n₁, n₂, rfl⟩ := exists_byteOf constant
    exact ⟨_, .add x n₁ n₂⟩
  | random x mask =>
    obtain ⟨n₁, n₂, rfl⟩ := exists_byteOf mask
    exact ⟨_, .random x n₁ n₂⟩
  | draw x y height =>
    obtain ⟨n₁, n₂, rfl⟩ := exists_byteOf height
    -- a height below sixteen has a zero as its first digit
    obtain rfl : n₁ = 0 := Fin.ext (by
      simp only [Fits, toNat_byteOf] at hFits
      omega)
    exact ⟨_, .draw x y n₂⟩
  | arith op x y =>
    cases op with
    | assign => exact ⟨_, .assign x y⟩
    | or => exact ⟨_, .or x y⟩
    | and => exact ⟨_, .and x y⟩
    | xor => exact ⟨_, .xor x y⟩
    | add => exact ⟨_, .addRegister x y⟩
    | sub => exact ⟨_, .sub x y⟩
    | shiftRight => exact ⟨_, .shiftRight x y⟩
    | subReverse => exact ⟨_, .subReverse x y⟩
    | shiftLeft => exact ⟨_, .shiftLeft x y⟩
  | skipSame x y => exact ⟨_, .skipSame x y⟩
  | skipDifferent x y => exact ⟨_, .skipDifferent x y⟩
  | skipPressed x => exact ⟨_, .skipPressed x⟩
  | skipReleased x => exact ⟨_, .skipReleased x⟩
  | readDelay x => exact ⟨_, .readDelay x⟩
  | awaitKey x => exact ⟨_, .awaitKey x⟩
  | setDelay x => exact ⟨_, .setDelay x⟩
  | setSound x => exact ⟨_, .setSound x⟩
  | addIndex x => exact ⟨_, .addIndex x⟩
  | pointGlyph x => exact ⟨_, .pointGlyph x⟩
  | storeDecimal x => exact ⟨_, .storeDecimal x⟩
  | storeFront x => exact ⟨_, .storeFront x⟩
  | loadFront x => exact ⟨_, .loadFront x⟩

/-- An opcode stands for the instruction that the table has for it. -/
theorem decode_eq_ok_iff_inTable {opcode : Opcode} {instruction : Instruction Register} :
    decode opcode = .ok instruction ↔ InTable opcode instruction := by
  rw [decode_eq_ok_iff]
  constructor
  · rintro ⟨hFits, hEncode⟩
    obtain ⟨row, hRow⟩ := exists_inTable hFits
    -- two opcodes with the digits of one instruction are the same
    have hSame : opcode = row :=
      UInt16.toNat_inj.mp (hEncode.symm.trans (encode_of_inTable hRow).2)
    exact hSame ▸ hRow
  · exact encode_of_inTable

/-- An opcode that the table does not have is reported itself. -/
theorem decode_eq_error_iff_not_inTable {opcode : Opcode} {problem : UnsupportedOpcode} :
    decode opcode = .error problem ↔
      (∀ instruction, ¬ InTable opcode instruction) ∧ problem = ⟨opcode⟩ := by
  rw [decode_eq_error_iff, Option.eq_none_iff_forall_ne_some]
  refine and_congr_left fun _ => forall_congr' fun instruction => not_congr ?_
  rw [decode?_eq_some_iff, ← decode_eq_ok_iff, decode_eq_ok_iff_inTable]

/-- Two opcodes that stand for the same instruction are the same. -/
theorem eq_of_decode_eq {opcode other : Opcode} {instruction : Instruction Register}
    (hOpcode : decode opcode = .ok instruction) (hOther : decode other = .ok instruction) :
    opcode = other :=
  UInt16.toNat_inj.mp
    ((decode_eq_ok_iff.mp hOpcode).2.symm.trans (decode_eq_ok_iff.mp hOther).2)

end Instruction
end ChipEight
