import ChipEight.Proofs.Obeying

/-!
# Arithmetic on registers

The operations of group 8 read two registers, which may be one and the same, and write up to
two, of which the flag register may be one.  What they compute is an equation over the integers
between the operands before and the result and the flag after; where the flag register is the
target as well, the flag wins and the result is lost.

* `ArithOp.Computes` — a result and a flag that satisfy a law, with the law of each operation
  that leaves a flag;
* `Machine.Flags`, `Machine.Assigns` — an opcode that leaves a result with a flag behind, and
  one that leaves a result alone;
* `Machine.flags_of_computes`, `Machine.assigns_of_effect` — which of the two an instruction
  does;
* `Machine.arithmetic_under_aliasing` — the opcodes that compute, for all operands.
-/

namespace ChipEight

namespace ArithOp

/-! ## Results and flags over the integers -/

/-- The operation has a result and a flag, and the two satisfy a law. -/
def Computes (op : ArithOp) (a b : UInt8) (law : Int → Int → Prop) : Prop :=
  ∃ result flag, op.eval a b = (result, some flag) ∧ law result.toNat flag.toNat

theorem toNat_decide (condition : Prop) [Decidable condition] :
    (decide condition).toNat = if condition then 1 else 0 := by
  split
  · next hTrue => rw [decide_eq_true hTrue, Bool.toNat_true]
  · next hFalse => rw [decide_eq_false hFalse, Bool.toNat_false]

/-- A difference of bytes and the flag that nothing was borrowed. -/
theorem difference_eq (a b : UInt8) :
    ((a - b).toNat : Int) =
        a.toNat - b.toNat + 256 * (1 - ((decide (b ≤ a)).toNat : Int)) ∧
      (((decide (b ≤ a)).toNat : Int) = 1 ↔ (b.toNat : Int) ≤ a.toNat) := by
  have hA := a.toNat_lt
  have hB := b.toNat_lt
  simp only [UInt8.toNat_sub, toNat_decide, UInt8.le_iff_toNat_le]
  split <;> omega

theorem computes_add (a b : UInt8) :
    add.Computes a b fun r f => r + 256 * f = a.toNat + b.toNat := by
  have hA := a.toNat_lt
  have hB := b.toNat_lt
  refine ⟨_, _, rfl, ?_⟩
  simp only [UInt8.toNat_add, toNat_decide]
  split <;> omega

theorem computes_sub (a b : UInt8) :
    sub.Computes a b fun r f =>
      r = a.toNat - b.toNat + 256 * (1 - f) ∧ (f = 1 ↔ (b.toNat : Int) ≤ a.toNat) :=
  ⟨_, _, rfl, difference_eq a b⟩

theorem computes_subReverse (a b : UInt8) :
    subReverse.Computes a b fun r f =>
      r = b.toNat - a.toNat + 256 * (1 - f) ∧ (f = 1 ↔ (a.toNat : Int) ≤ b.toNat) :=
  ⟨_, _, rfl, difference_eq b a⟩

theorem computes_shiftRight (a b : UInt8) :
    shiftRight.Computes a b fun r f => a.toNat = 2 * r + f := by
  have hHalf : (a / 2).toNat = a.toNat / 2 := UInt8.toNat_div a 2
  have hBit : a % 2 = 1 ↔ a.toNat % 2 = 1 := UInt8.toNat_inj.symm
  refine ⟨_, _, rfl, ?_⟩
  simp only [hHalf, toNat_decide, hBit]
  split <;> omega

theorem computes_shiftLeft (a b : UInt8) :
    shiftLeft.Computes a b fun r f => 2 * (a.toNat : Int) = 256 * f + r := by
  have hA := a.toNat_lt
  have hBit : 128 ≤ a ↔ 128 ≤ a.toNat := UInt8.le_iff_toNat_le
  refine ⟨_, _, rfl, ?_⟩
  simp only [UInt8.toNat_add, toNat_decide, hBit]
  split <;> omega

end ArithOp

namespace Machine

open Instruction (registerConstant registerPair)

/-! ## What an opcode leaves in the registers -/

/-- The opcode with a number leaves a result and a flag behind that satisfy a law.  The flag is
in the flag register, whatever the operands are, and the result is in the target register, unless
the flag has taken its place. -/
def Flags (machine : Machine) (number : Nat) (x : Register) (law : Int → Int → Prop) : Prop :=
  ∃ (next : Machine) (result flag : Nat), machine.Obeys number .proceed next ∧
    result < 256 ∧ flag ≤ 1 ∧ law result flag ∧
    (next.value Register.flag).toNat = flag ∧
    (x ≠ Register.flag → (next.value x).toNat = result) ∧
    (∀ z, z ≠ x → z ≠ Register.flag → next.value z = machine.value z) ∧
    next.counter.toNat = (machine.counter.toNat + 2) % 0x10000

/-- The opcode with a number leaves a result in the target register and no other register
changed. -/
def Assigns (machine : Machine) (number : Nat) (x : Register) (result : Nat) : Prop :=
  ∃ next : Machine, machine.Obeys number .proceed next ∧
    (next.value x).toNat = result ∧
    (∀ z, z ≠ x → next.value z = machine.value z) ∧
    next.counter.toNat = (machine.counter.toNat + 2) % 0x10000

variable {machine : Machine}

/-- An operation with a flag writes the flag after the result. -/
theorem flags_of_computes {op : ArithOp} {x y : Register} {law : Int → Int → Prop}
    (hComputes : op.Computes (machine.value x) (machine.value y) law) :
    machine.Flags (registerPair 0x8 x y op.selector) x law := by
  obtain ⟨result, flag, hEval, hLaw⟩ := hComputes
  have hCombine : machine.combine op x y =
      (machine.setValue x result).setValue Register.flag flag.toUInt8 := by
    simp only [combine, hEval]
  have hEffect : machine.effect (.arith op x y) =
      .ok ⟨(machine.setValue x result).setValue Register.flag flag.toUInt8, .next, .proceed⟩ := by
    rw [← hCombine]
    rfl
  have hObeys := obeys_encode (.arith op x y) trivial hEffect
  refine ⟨_, result.toNat, flag.toNat, hObeys, result.toNat_lt, flag.toNat_le, hLaw,
    ?_, ?_, ?_, toNat_counter_advance_next _⟩
  · rw [value_advance, value_setValue, if_pos rfl]
    cases flag <;> rfl
  · intro hTarget
    simp [hTarget.symm]
  · intro z hTarget hFlag
    simp [hFlag.symm, hTarget.symm]

/-- An instruction that does nothing but set a register leaves that value there. -/
theorem assigns_of_effect (instruction : Instruction Register) {x : Register} {result : UInt8}
    (hFits : instruction.Fits)
    (hEffect : machine.effect instruction =
      .ok ⟨machine.setValue x result, .next, .proceed⟩) :
    machine.Assigns instruction.encode x result.toNat := by
  refine ⟨_, obeys_encode instruction hFits hEffect, ?_, ?_, toNat_counter_advance_next _⟩
  · simp
  · intro z hTarget
    simp [hTarget.symm]

/-- The opcodes that compute, for all operands, the same register twice and the flag register
among them.  With `a` and `b` in the registers `X` and `Y` before, `8XY4` to `8XY7` and `8XYE`
leave a result and a flag behind that make up the sum, the difference or the shifted operand;
`8XY0` to `8XY3` and `7XNN` leave a result and no flag; and `FX1E` adds to the index register
and leaves all registers alone. -/
theorem arithmetic_under_aliasing (machine : Machine) (x y : Register) :
    let a : Nat := (machine.value x).toNat
    let b : Nat := (machine.value y).toNat
    machine.Flags (registerPair 0x8 x y 0x4) x (fun r f => r + 256 * f = a + b) ∧
    machine.Flags (registerPair 0x8 x y 0x5) x
      (fun r f => r = a - b + 256 * (1 - f) ∧ (f = 1 ↔ (b : Int) ≤ a)) ∧
    machine.Flags (registerPair 0x8 x y 0x7) x
      (fun r f => r = b - a + 256 * (1 - f) ∧ (f = 1 ↔ (a : Int) ≤ b)) ∧
    machine.Flags (registerPair 0x8 x y 0x6) x (fun r f => a = 2 * r + f) ∧
    machine.Flags (registerPair 0x8 x y 0xE) x (fun r f => 2 * a = 256 * f + r) ∧
    machine.Assigns (registerPair 0x8 x y 0x0) x b ∧
    machine.Assigns (registerPair 0x8 x y 0x1) x (a ||| b) ∧
    machine.Assigns (registerPair 0x8 x y 0x2) x (a &&& b) ∧
    machine.Assigns (registerPair 0x8 x y 0x3) x (a ^^^ b) ∧
    (∀ constant : UInt8,
      machine.Assigns (registerConstant 0x7 x constant.toNat) x
        ((a + constant.toNat) % 256)) ∧
    ∃ next : Machine, machine.Obeys (registerConstant 0xF x 0x1E) .proceed next ∧
      next.index.toNat = (machine.index.toNat + a) % 0x10000 ∧
      next.registers = machine.registers ∧
      next.counter.toNat = (machine.counter.toNat + 2) % 0x10000 := by
  intro a b
  refine ⟨?_, ?_, ?_, ?_, ?_, ?_, ?_, ?_, ?_, ?_, ?_⟩
  · exact flags_of_computes (ArithOp.computes_add _ _)
  · exact flags_of_computes (ArithOp.computes_sub _ _)
  · exact flags_of_computes (ArithOp.computes_subReverse _ _)
  · exact flags_of_computes (ArithOp.computes_shiftRight _ _)
  · exact flags_of_computes (ArithOp.computes_shiftLeft _ _)
  · exact assigns_of_effect (.arith .assign x y) trivial rfl
  · exact assigns_of_effect (.arith .or x y) trivial rfl
  · exact assigns_of_effect (.arith .and x y) trivial rfl
  · exact assigns_of_effect (.arith .xor x y) trivial rfl
  · intro constant
    exact assigns_of_effect (.add x constant) trivial rfl
  · have hEffect : machine.effect (.addIndex x) =
        .ok ⟨{ machine with index := machine.index + (machine.value x).toUInt16 },
          .next, .proceed⟩ := rfl
    exact ⟨_, obeys_encode (.addIndex x) trivial hEffect,
      UInt16.toNat_add machine.index _, rfl, toNat_counter_advance_next _⟩

/-- The flag register added to itself keeps the carry and not the sum, and taken from itself it
says that nothing was borrowed. -/
theorem arithmetic_under_aliasing_flag :
    let machine := (fresh (Entropy.ofWords fun _ => 0)).setValue Register.flag 100
    (∃ next, machine.Obeys 0x8FF4 .proceed next ∧ (next.value Register.flag).toNat = 0) ∧
    ∃ next, machine.Obeys 0x8FF5 .proceed next ∧ (next.value Register.flag).toNat = 1 := by
  intro machine
  have hValue : (machine.value Register.flag).toNat = 100 := by decide
  obtain ⟨hAdd, hSub, -⟩ := arithmetic_under_aliasing machine Register.flag Register.flag
  rw [hValue] at hAdd hSub
  obtain ⟨sum, result, carry, hSum, hResult, hCarry, hSumLaw, hSumFlag, -⟩ := hAdd
  obtain ⟨difference, rest, unborrowed, hDifference, -, -, ⟨-, hUnborrowed⟩, hFlag, -⟩ := hSub
  refine ⟨⟨sum, hSum, ?_⟩, difference, hDifference, ?_⟩
  · omega
  · omega

end Machine
end ChipEight
