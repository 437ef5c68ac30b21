import ChipEight.Instruction.Basic

/-!
# Arithmetic on two registers

What the operations of group 8 compute from the values of their two registers: a
result, which is a byte and wraps around, and for some of them a flag.
-/

namespace ChipEight
namespace ArithOp

/-- The result of an operation, and its flag where it has one. -/
def eval (vx vy : UInt8) : ArithOp → UInt8 × Option Bool
  | .assign => (vy, none)
  | .or => (vx ||| vy, none)
  | .and => (vx &&& vy, none)
  | .xor => (vx ^^^ vy, none)
  | .add => (vx + vy, some (decide (256 ≤ vx.toNat + vy.toNat)))
  | .sub => (vx - vy, some (decide (vy ≤ vx)))
  | .shiftRight => (vx / 2, some (decide (vx % 2 = 1)))
  | .subReverse => (vy - vx, some (decide (vx ≤ vy)))
  | .shiftLeft => (vx + vx, some (decide (128 ≤ vx)))

end ArithOp
end ChipEight
