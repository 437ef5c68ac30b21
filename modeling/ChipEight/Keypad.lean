/-!
# The keypad

Sixteen keys, each up or down, and a latch for one press.

* `Keypad.set` reports one key.  Going from up to down is a press, and the latest
  press is latched.
* `Keypad.setAll` reports all keys, from the highest one down to the lowest one.  What
  was latched before is dropped, so that the lowest newly pressed key is latched.
* `Keypad.takeLatch` hands the latched press out and forgets it.
-/

namespace ChipEight

/-- The name of a key: `0` to `15`. -/
abbrev Key := Fin 16

/-- The level of every key, true for down. -/
abbrev Levels := Vector Bool 16

namespace Levels

def released : Levels := Vector.replicate 16 false

end Levels

/-- The levels of the keys and the latched press. -/
structure Keypad where
  levels : Levels
  /-- The press that nobody has used yet. -/
  latch : Option Key
deriving DecidableEq

namespace Keypad

/-- No key is down and nothing is latched. -/
def fresh : Keypad := ⟨Levels.released, none⟩

/-- Reports the level of one key.  A number that names no key is ignored. -/
def set (pad : Keypad) (key : Nat) (down : Bool) : Keypad :=
  if hKey : key < 16 then
    { levels := pad.levels.set key down hKey
      latch := if down && !pad.levels[key] then some ⟨key, hKey⟩ else pad.latch }
  else pad

/-- Whether a key is down; numbers beyond the keys count modulo sixteen. -/
def isPressed (pad : Keypad) (key : Nat) : Bool :=
  pad.levels[key % 16]

def clearLatch (pad : Keypad) : Keypad :=
  { pad with latch := none }

/-- Reports the levels of some keys one after the other, the last one of the list first. -/
def setEach (pad : Keypad) (levels : Levels) : List Key → Keypad
  | [] => pad
  | key :: keys => (pad.setEach levels keys).set key.val (levels.get key)

/-- Reports the levels of all keys at once.  What the sixteen reports come to is a lemma, so
that no comparison of two machines has to go through them. -/
@[irreducible] def setAll (pad : Keypad) (levels : Levels) : Keypad :=
  pad.clearLatch.setEach levels (List.finRange 16)

/-- Hands out the latched press and forgets it. -/
def takeLatch (pad : Keypad) : Option Key × Keypad :=
  (pad.latch, pad.clearLatch)

inductive Action where
  | set (key : Nat) (down : Bool)
  | setAll (levels : Levels)
  | isPressed (key : Nat)
  | takeLatch
  | clearLatch

inductive Reply where
  | done
  | level (down : Bool)
  | taken (press : Option Key)
deriving DecidableEq

def perform (pad : Keypad) : Action → Reply × Keypad
  | .set key down => (.done, pad.set key down)
  | .setAll levels => (.done, pad.setAll levels)
  | .isPressed key => (.level (pad.isPressed key), pad)
  | .takeLatch => (.taken pad.takeLatch.1, pad.takeLatch.2)
  | .clearLatch => (.done, pad.clearLatch)

def after (pad : Keypad) (actions : List Action) : Keypad :=
  actions.foldl (fun current action => (current.perform action).2) pad

/-- A report about no key changes nothing. -/
theorem set_of_le {pad : Keypad} {key : Nat} {down : Bool} (hKey : 16 ≤ key) :
    pad.set key down = pad := by
  rw [set, dif_neg (by omega)]

/-- Taking a press that is not there changes nothing. -/
theorem clearLatch_of_none {pad : Keypad} (hLatch : pad.latch = none) :
    pad.clearLatch = pad := by
  rw [clearLatch, ← hLatch]

end Keypad
end ChipEight
