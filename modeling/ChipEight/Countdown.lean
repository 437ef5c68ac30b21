/-!
# Countdowns

An 8-bit value that loses one with every tick and stays at zero once it is there.
The machine has two of them: one that programs read to measure time, and one that
sounds a tone while it runs.
-/

namespace ChipEight

/-- A value that counts down to zero. -/
structure Countdown where
  value : UInt8
deriving DecidableEq

namespace Countdown

def zero : Countdown := ⟨0⟩

/-- The countdown runs as long as ticks are left. -/
def isRunning (timer : Countdown) : Bool := decide (0 < timer.value)

/-- One tick: one less, but never below zero. -/
def tick (timer : Countdown) : Countdown :=
  if timer.value = 0 then timer else ⟨timer.value - 1⟩

def ticks : Nat → Countdown → Countdown
  | 0, timer => timer
  | count + 1, timer => ticks count timer.tick

/-- A tick takes one off the value, with zero as the floor. -/
@[simp] theorem toNat_tick (timer : Countdown) :
    timer.tick.value.toNat = timer.value.toNat - 1 := by
  unfold tick
  split
  · next hZero => simp [hZero]
  · next hRunning =>
    have hOne : (1 : UInt8) ≤ timer.value := by
      rw [UInt8.le_iff_toNat_le]
      have hNe : timer.value.toNat ≠ 0 := fun h => hRunning (UInt8.toNat_inj.mp h)
      simp only [UInt8.reduceToNat]
      omega
    rw [UInt8.toNat_sub_of_le _ _ hOne]
    rfl

/-- Several ticks take their number off the value, with zero as the floor. -/
@[simp] theorem toNat_ticks (count : Nat) (timer : Countdown) :
    (timer.ticks count).value.toNat = timer.value.toNat - count := by
  induction count generalizing timer with
  | zero => rfl
  | succ count ih =>
    rw [ticks, ih, toNat_tick]
    omega

end Countdown
end ChipEight
