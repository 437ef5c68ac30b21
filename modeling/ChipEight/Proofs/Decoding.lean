import ChipEight.Instruction.Decode

/-!
# Which opcodes stand for which instructions

`Instruction.decode?` takes an opcode apart digit by digit, and
`Instruction.encode` puts the digits of an instruction together.  This module shows
that the two describe the same table:

* `Instruction.decode?_eq_some_iff` — an opcode stands for exactly the instruction
  whose operands fit their digits and whose digits make up the opcode.

Later modules read the shape of an opcode off the instruction it stands for, and
the bounds of an instruction's operands off `Instruction.Fits`, without opening the
decoder again.
-/

namespace ChipEight

namespace Opcode

/-! ## The fields of an opcode as numbers -/

@[simp] theorem toNat_address (opcode : Opcode) :
    opcode.address.toNat = opcode.toNat % 0x1000 := by
  simp [address]

@[simp] theorem toNat_constant (opcode : Opcode) :
    opcode.constant.toNat = opcode.toNat % 0x100 := by
  simp [constant]

@[simp] theorem toNat_lastDigit (opcode : Opcode) :
    opcode.lastDigit.toNat = opcode.toNat % 0x10 := by
  simp [lastDigit]

theorem val_x (opcode : Opcode) : opcode.x.val = opcode.toNat / 0x100 % 16 := rfl

theorem val_y (opcode : Opcode) : opcode.y.val = opcode.toNat / 0x10 % 16 := rfl

@[simp] theorem toNat_ofBytes (high low : UInt8) :
    (ofBytes high low).toNat = 0x100 * high.toNat + low.toNat := by
  have hHigh : high.toNat < 256 := high.toNat_lt
  have hLow : low.toNat < 256 := low.toNat_lt
  simp only [ofBytes, UInt16.toNat_add, UInt16.toNat_mul, UInt8.toNat_toUInt16,
    UInt16.reduceToNat]
  omega

end Opcode

namespace ArithOp

theorem ofSelector?_eq_some_iff {digit : Nat} {op : ArithOp} :
    ofSelector? digit = some op ↔ op.selector = digit := by
  constructor
  · intro hSelect
    unfold ofSelector? at hSelect
    split at hSelect <;> first | (cases hSelect; rfl) | contradiction
  · rintro rfl
    exact ofSelector?_selector op

end ArithOp

namespace Instruction

/-! ## From the opcode to the instruction and back -/

theorem encode_of_ofKeySelector? {x : Register} {selector : Nat}
    {instruction : Instruction Register}
    (hSelect : ofKeySelector? x selector = some instruction) :
    instruction.Fits ∧ instruction.encode = registerConstant 0xE x selector := by
  unfold ofKeySelector? at hSelect
  split at hSelect <;> first | (cases hSelect; exact ⟨trivial, rfl⟩) | contradiction

theorem encode_of_ofDeviceSelector? {x : Register} {selector : Nat}
    {instruction : Instruction Register}
    (hSelect : ofDeviceSelector? x selector = some instruction) :
    instruction.Fits ∧ instruction.encode = registerConstant 0xF x selector := by
  unfold ofDeviceSelector? at hSelect
  split at hSelect <;> first | (cases hSelect; exact ⟨trivial, rfl⟩) | contradiction

theorem registerConstant_digits {group : Nat} {opcode : Opcode}
    (hGroup : opcode.group = group) :
    registerConstant group opcode.x opcode.constant.toNat = opcode.toNat := by
  -- the bound is what makes the group a single digit
  have hLt := opcode.toNat_lt
  simp only [registerConstant, Opcode.val_x, Opcode.toNat_constant, ← hGroup, Opcode.group]
  omega

theorem registerPair_digits {group : Nat} {opcode : Opcode} (hGroup : opcode.group = group) :
    registerPair group opcode.x opcode.y opcode.lastDigit.toNat = opcode.toNat := by
  have hLt := opcode.toNat_lt
  simp only [registerPair, registerConstant, Opcode.val_x, Opcode.val_y,
    Opcode.toNat_lastDigit, ← hGroup, Opcode.group]
  omega

theorem registerPair_zero_digits {group : Nat} {opcode : Opcode}
    (hGroup : opcode.group = group) (hDigit : opcode.lastDigit = 0) :
    registerPair group opcode.x opcode.y 0 = opcode.toNat := by
  have hPair := registerPair_digits hGroup
  rw [hDigit] at hPair
  exact hPair

theorem address_digits {group : Nat} {opcode : Opcode} (hGroup : opcode.group = group) :
    0x1000 * group + opcode.address.toNat = opcode.toNat := by
  simp only [Opcode.toNat_address, ← hGroup, Opcode.group]
  omega

theorem address_fits (opcode : Opcode) : opcode.address.toNat < 0x1000 := by
  rw [Opcode.toNat_address]
  omega

theorem lastDigit_fits (opcode : Opcode) : opcode.lastDigit.toNat < 0x10 := by
  rw [Opcode.toNat_lastDigit]
  omega

/-- An opcode is made up of the digits of the instruction it stands for, and the
operands of that instruction fit their digits. -/
theorem encode_of_decode? {opcode : Opcode} {instruction : Instruction Register}
    (hDecode : decode? opcode = some instruction) :
    instruction.Fits ∧ instruction.encode = opcode.toNat := by
  unfold decode? at hDecode
  -- one case for each group, from `0` to `F`
  split at hDecode
  case h_1 =>
    split at hDecode
    · next hClear => cases hDecode; exact ⟨trivial, by rw [hClear]; rfl⟩
    split at hDecode
    · next hRet => cases hDecode; exact ⟨trivial, by rw [hRet]; rfl⟩
    · contradiction
  case h_2 hGroup => cases hDecode; exact ⟨address_fits opcode, address_digits hGroup⟩
  case h_3 hGroup => cases hDecode; exact ⟨address_fits opcode, address_digits hGroup⟩
  case h_4 hGroup => cases hDecode; exact ⟨trivial, registerConstant_digits hGroup⟩
  case h_5 hGroup => cases hDecode; exact ⟨trivial, registerConstant_digits hGroup⟩
  case h_6 hGroup =>
    split at hDecode
    · next hDigit =>
      cases hDecode
      exact ⟨trivial, registerPair_zero_digits hGroup hDigit⟩
    · contradiction
  case h_7 hGroup => cases hDecode; exact ⟨trivial, registerConstant_digits hGroup⟩
  case h_8 hGroup => cases hDecode; exact ⟨trivial, registerConstant_digits hGroup⟩
  case h_9 hGroup =>
    obtain ⟨op, hSelect, hInstruction⟩ := Option.map_eq_some_iff.mp hDecode
    subst hInstruction
    have hSelector := ArithOp.ofSelector?_eq_some_iff.mp hSelect
    exact ⟨trivial, by rw [encode, hSelector]; exact registerPair_digits hGroup⟩
  case h_10 hGroup =>
    split at hDecode
    · next hDigit =>
      cases hDecode
      exact ⟨trivial, registerPair_zero_digits hGroup hDigit⟩
    · contradiction
  case h_11 hGroup => cases hDecode; exact ⟨address_fits opcode, address_digits hGroup⟩
  case h_12 hGroup => cases hDecode; exact ⟨address_fits opcode, address_digits hGroup⟩
  case h_13 hGroup => cases hDecode; exact ⟨trivial, registerConstant_digits hGroup⟩
  case h_14 hGroup => cases hDecode; exact ⟨lastDigit_fits opcode, registerPair_digits hGroup⟩
  case h_15 hGroup =>
    obtain ⟨hFits, hEncode⟩ := encode_of_ofKeySelector? hDecode
    exact ⟨hFits, hEncode.trans (registerConstant_digits hGroup)⟩
  case h_16 =>
    -- the last group has no pattern of its own: it is what the other fifteen leave
    have hLt := opcode.toNat_lt
    have hGroup : opcode.group = 0xF := by
      simp only [imp_false, Opcode.group] at *
      omega
    obtain ⟨hFits, hEncode⟩ := encode_of_ofDeviceSelector? hDecode
    exact ⟨hFits, hEncode.trans (registerConstant_digits hGroup)⟩

/-! ## From the instruction to the opcode and back -/

theorem group_of_registerConstant (group : Nat) {constant : Nat} {x : Register}
    {opcode : Opcode}
    (hConstant : constant < 0x100) (hEncode : registerConstant group x constant = opcode.toNat) :
    opcode.group = group ∧ opcode.x = x ∧ opcode.constant.toNat = constant := by
  have hX : x.val < 16 := x.isLt
  simp only [registerConstant] at hEncode
  refine ⟨?_, Fin.ext ?_, ?_⟩
  · simp only [Opcode.group]
    omega
  · rw [Opcode.val_x]
    omega
  · rw [Opcode.toNat_constant]
    omega

theorem group_of_registerPair (group : Nat) {digit : Nat} {x y : Register} {opcode : Opcode}
    (hDigit : digit < 0x10) (hEncode : registerPair group x y digit = opcode.toNat) :
    opcode.group = group ∧ opcode.x = x ∧ opcode.y = y ∧
      opcode.lastDigit.toNat = digit := by
  have hX : x.val < 16 := x.isLt
  have hY : y.val < 16 := y.isLt
  simp only [registerPair, registerConstant] at hEncode
  refine ⟨?_, Fin.ext ?_, Fin.ext ?_, ?_⟩
  · simp only [Opcode.group]
    omega
  · rw [Opcode.val_x]
    omega
  · rw [Opcode.val_y]
    omega
  · rw [Opcode.toNat_lastDigit]
    omega

theorem group_of_address (group : Nat) {target : UInt16} {opcode : Opcode}
    (hTarget : target.toNat < 0x1000) (hEncode : 0x1000 * group + target.toNat = opcode.toNat) :
    opcode.group = group ∧ opcode.address = target := by
  refine ⟨?_, UInt16.toNat_inj.mp ?_⟩
  · simp only [Opcode.group]
    omega
  · rw [Opcode.toNat_address]
    omega

/-- The opcode that is made up of the digits of an instruction stands for it. -/
theorem decode?_of_encode {opcode : Opcode} {instruction : Instruction Register}
    (hFits : instruction.Fits) (hEncode : instruction.encode = opcode.toNat) :
    decode? opcode = some instruction := by
  -- the digits fix the group and the operands, and with these the decoder computes
  cases instruction with
  | clear =>
    have hOpcode : opcode = 0x00E0 := UInt16.toNat_inj.mp hEncode.symm
    rw [hOpcode]
    rfl
  | ret =>
    have hOpcode : opcode = 0x00EE := UInt16.toNat_inj.mp hEncode.symm
    rw [hOpcode]
    rfl
  | jump address =>
    obtain ⟨hGroup, hAddress⟩ := group_of_address 0x1 hFits hEncode
    simp only [decode?, hGroup, hAddress]
  | call address =>
    obtain ⟨hGroup, hAddress⟩ := group_of_address 0x2 hFits hEncode
    simp only [decode?, hGroup, hAddress]
  | skipEqual x constant =>
    obtain ⟨hGroup, hX, hConstant⟩ :=
      group_of_registerConstant 0x3 constant.toNat_lt hEncode
    simp only [decode?, hGroup, hX, UInt8.toNat_inj.mp hConstant]
  | skipNotEqual x constant =>
    obtain ⟨hGroup, hX, hConstant⟩ :=
      group_of_registerConstant 0x4 constant.toNat_lt hEncode
    simp only [decode?, hGroup, hX, UInt8.toNat_inj.mp hConstant]
  | skipSame x y =>
    obtain ⟨hGroup, hX, hY, hDigit⟩ := group_of_registerPair 0x5 (by omega) hEncode
    have hZero : opcode.lastDigit = 0 := UInt8.toNat_inj.mp hDigit
    simp only [decode?, hGroup, hX, hY, hZero, if_true]
  | set x constant =>
    obtain ⟨hGroup, hX, hConstant⟩ :=
      group_of_registerConstant 0x6 constant.toNat_lt hEncode
    simp only [decode?, hGroup, hX, UInt8.toNat_inj.mp hConstant]
  | add x constant =>
    obtain ⟨hGroup, hX, hConstant⟩ :=
      group_of_registerConstant 0x7 constant.toNat_lt hEncode
    simp only [decode?, hGroup, hX, UInt8.toNat_inj.mp hConstant]
  | arith op x y =>
    obtain ⟨hGroup, hX, hY, hDigit⟩ :=
      group_of_registerPair 0x8 (by cases op <;> decide) hEncode
    simp only [decode?, hGroup, hX, hY, hDigit, ArithOp.ofSelector?_selector,
      Option.map_some]
  | skipDifferent x y =>
    obtain ⟨hGroup, hX, hY, hDigit⟩ := group_of_registerPair 0x9 (by omega) hEncode
    have hZero : opcode.lastDigit = 0 := UInt8.toNat_inj.mp hDigit
    simp only [decode?, hGroup, hX, hY, hZero, if_true]
  | setIndex address =>
    obtain ⟨hGroup, hAddress⟩ := group_of_address 0xA hFits hEncode
    simp only [decode?, hGroup, hAddress]
  | jumpOffset address =>
    obtain ⟨hGroup, hAddress⟩ := group_of_address 0xB hFits hEncode
    simp only [decode?, hGroup, hAddress]
  | random x mask =>
    obtain ⟨hGroup, hX, hConstant⟩ := group_of_registerConstant 0xC mask.toNat_lt hEncode
    simp only [decode?, hGroup, hX, UInt8.toNat_inj.mp hConstant]
  | draw x y height =>
    obtain ⟨hGroup, hX, hY, hDigit⟩ := group_of_registerPair 0xD hFits hEncode
    have hHeight : opcode.lastDigit = height := UInt8.toNat_inj.mp hDigit
    simp only [decode?, hGroup, hX, hY, hHeight]
  | skipPressed x | skipReleased x =>
    obtain ⟨hGroup, hX, hConstant⟩ := group_of_registerConstant 0xE (by omega) hEncode
    simp only [decode?, hGroup, hX, hConstant, ofKeySelector?]
  | readDelay x | awaitKey x | setDelay x | setSound x | addIndex x | pointGlyph x
  | storeDecimal x | storeFront x | loadFront x =>
    obtain ⟨hGroup, hX, hConstant⟩ := group_of_registerConstant 0xF (by omega) hEncode
    simp only [decode?, hGroup, hX, hConstant, ofDeviceSelector?]

/-- An opcode stands for exactly the instruction whose operands fit their digits and
whose digits make up the opcode. -/
theorem decode?_eq_some_iff {opcode : Opcode} {instruction : Instruction Register} :
    decode? opcode = some instruction ↔
      instruction.Fits ∧ instruction.encode = opcode.toNat := by
  constructor
  · exact encode_of_decode?
  · rintro ⟨hFits, hEncode⟩
    exact decode?_of_encode hFits hEncode

/-- The same for the decoder that reports opcodes which stand for no instruction. -/
theorem decode_eq_ok_iff {opcode : Opcode} {instruction : Instruction Register} :
    decode opcode = .ok instruction ↔
      instruction.Fits ∧ instruction.encode = opcode.toNat := by
  rw [← decode?_eq_some_iff, decode]
  cases decode? opcode <;> simp

/-- An opcode that stands for no instruction is reported itself. -/
theorem decode_eq_error_iff {opcode : Opcode} {problem : UnsupportedOpcode} :
    decode opcode = .error problem ↔ decode? opcode = none ∧ problem = ⟨opcode⟩ := by
  rw [decode]
  cases decode? opcode <;> simp [eq_comm]

end Instruction
end ChipEight
