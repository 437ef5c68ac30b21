/-!
# The screen

A grid of 64 by 32 pixels, each on or off.  It changes in two ways only: it is
turned off as a whole, or a sprite is drawn onto it.

A sprite is a list of bytes, one for each row, with the most significant bit on
the left.  Drawing flips the pixel under every set bit, and both edges of the
screen wrap around.  A draw collides if it turns some pixel off.
-/

namespace ChipEight

/-- A pixel's place on the screen, counted row by row. -/
abbrev Cell := Fin 2048

namespace Cell

/-- The place with the given coordinates, both of which wrap around. -/
def atPoint (x y : Nat) : Cell := ⟨64 * (y % 32) + x % 64, by omega⟩

end Cell

namespace Sprite

/-- The places under the set bits of one sprite row whose left end is at `x`, from
left to right. -/
def rowCells (x y : Nat) (row : UInt8) : List Cell :=
  (List.range 8).filterMap fun column =>
    if row.toNat.testBit (7 - column) then some (Cell.atPoint (x + column) y) else none

/-- The places under the set bits of a sprite whose upper left corner is at
`(x, y)`, row by row. -/
def cells (x y : Nat) : List UInt8 → List Cell
  | [] => []
  | row :: rows => rowCells x y row ++ cells x (y + 1) rows

end Sprite

structure Screen where
  pixels : Vector Bool 2048
deriving DecidableEq

namespace Screen

def blank : Screen := ⟨Vector.replicate 2048 false⟩

def lit (screen : Screen) (cell : Cell) : Bool := screen.pixels[cell]

/-- Whether the pixel with the given coordinates is on. -/
def pixel (screen : Screen) (x y : Nat) : Bool := screen.lit (Cell.atPoint x y)

def flip (screen : Screen) (cell : Cell) : Screen :=
  ⟨screen.pixels.set cell.val (!screen.pixels[cell]) cell.isLt⟩

/-- Flips pixels one after the other and says whether one of the flips turned a
pixel off. -/
def flipAll (screen : Screen) : List Cell → Bool × Screen
  | [] => (false, screen)
  | cell :: cells =>
    -- looked up before the flip, so that the screen is not held on to meanwhile
    let wasLit := screen.lit cell
    let rest := (screen.flip cell).flipAll cells
    (wasLit || rest.1, rest.2)

/-- Draws a sprite with its upper left corner at `(x, y)` and says whether it
collided. -/
def draw (screen : Screen) (x y : Nat) (rows : List UInt8) : Bool × Screen :=
  screen.flipAll (Sprite.cells x y rows)

/-- The rows of the screen from top to bottom, each from left to right. -/
def rows (screen : Screen) : List (List Bool) :=
  (List.range 32).map fun y => (List.range 64).map fun x => screen.pixel x y

inductive Action where
  | clear
  | draw (x y : Nat) (rows : List UInt8)

/-- Whether a draw collided, and the screen after the action. -/
def perform (screen : Screen) : Action → Option Bool × Screen
  | .clear => (none, blank)
  | .draw x y rows =>
    let drawn := screen.draw x y rows
    (some drawn.1, drawn.2)

def after (screen : Screen) (actions : List Action) : Screen :=
  actions.foldl (fun current action => (current.perform action).2) screen

@[simp] theorem lit_blank (cell : Cell) : blank.lit cell = false := by
  simp [lit, blank]

/-- A flip changes its own pixel and no other. -/
@[simp] theorem lit_flip (screen : Screen) (flipped cell : Cell) :
    (screen.flip flipped).lit cell =
      if flipped = cell then !screen.lit cell else screen.lit cell := by
  simp only [lit, flip, Fin.getElem_fin, Vector.getElem_set, Fin.ext_iff]
  split
  · next hSame => simp [hSame]
  · rfl

end Screen
end ChipEight
