import ChipEight.Proofs.Collision
import ChipEight.Proofs.Obeying
import ChipEight.Proofs.Ranges

/-!
# Drawing a sprite

`DXYN` draws the rows of a sprite from the memory behind the index register, at the coordinates
in two registers, and says in the flag register whether a pixel was turned off.  Its sprites have
at most fifteen rows, so no pixel is flipped twice, and the collisions that are found while the
pixels are flipped are the pixels that a comparison of the screens before and after finds.

* `Screen.draw_draw` — a sprite that is drawn twice is gone;
* `Screen.coverage_eq_zero_of_no_collision` — and one of the two draws collides, unless the
  sprite is empty;
* `Machine.spriteBit` — the bits of the sprite that the index register points at;
* `Machine.drawnSprite`, `Machine.obeys_draw` — the draw of that sprite, and the machine after the
  instruction;
* `Machine.draw_flips_what_it_covers` — what the instruction does to screen and registers.
-/

namespace ChipEight

namespace Screen

/-! ## The same sprite twice -/

/-- A sprite that is drawn twice at the same place is gone. -/
theorem draw_draw (screen : Screen) (x y : Nat) (rows : List UInt8) :
    ((screen.draw x y rows).2.draw x y rows).2 = screen := by
  refine eq_of_lit fun cell => ?_
  rw [draw, draw, lit_flipAll, lit_flipAll, Bool.xor_assoc, Bool.xor_self, Bool.xor_false]

/-- A sprite that covers no pixel twice changes those that it covers. -/
theorem pixel_draw_ne_iff (screen : Screen) (x y : Nat) {rows : List UInt8}
    (hHeight : rows.length ≤ 32) (px py : Nat) :
    (screen.draw x y rows).2.pixel px py ≠ screen.pixel px py ↔
      1 ≤ Sprite.coverage x y rows px py := by
  rw [pixel_draw]
  rcases Sprite.coverage_eq_zero_or_one x y hHeight px py with hNone | hOnce
  · simp [hNone]
  · simp [hOnce]

/-- A pixel under a sprite that is drawn twice is turned off by one of the two draws. -/
theorem coverage_eq_zero_of_no_collision {screen : Screen} {x y : Nat} {rows : List UInt8}
    (hHeight : rows.length ≤ 32) (hFirst : (screen.draw x y rows).1 = false)
    (hSecond : ((screen.draw x y rows).2.draw x y rows).1 = false) {px py : Nat}
    (hColumn : px < 64) (hLine : py < 32) : Sprite.coverage x y rows px py = 0 := by
  by_contra hCovered
  have hHit : 1 ≤ Sprite.coverage x y rows px py := Nat.one_le_iff_ne_zero.mpr hCovered
  have hChanged := (screen.pixel_draw_ne_iff x y hHeight px py).mpr hHit
  rw [← Bool.not_eq_true, draw_collides_iff] at hFirst hSecond
  cases hPixel : screen.pixel px py with
  | true => exact hFirst ⟨px, hColumn, py, hLine, Or.inl ⟨hPixel, hHit⟩⟩
  | false =>
    -- the first draw turns the pixel on, and the second one turns it off again
    have hOn : (screen.draw x y rows).2.pixel px py = true := by
      rw [hPixel] at hChanged
      exact Bool.eq_true_of_not_eq_false hChanged
    exact hSecond ⟨px, hColumn, py, hLine, Or.inl ⟨hOn, hHit⟩⟩

end Screen

namespace Machine

open Instruction (registerPair)

/-! ## The sprite in memory -/

/-- A bit of the sprite that the index register points at: the bytes behind it are its rows, and
the most significant bit of each is on the left. -/
def spriteBit (machine : Machine) (row column : Nat) : Bool :=
  (machine.memory.read (machine.place row)).toNat.testBit (7 - column)

/-- The rows of the sprite that the index register points at. -/
def spriteRows (machine : Machine) (height : Nat) : List UInt8 :=
  machine.memory.readAll machine.index.toNat height

@[simp] theorem length_spriteRows (machine : Machine) (height : Nat) :
    (machine.spriteRows height).length = height := Memory.length_readAll _ _ _

theorem length_spriteRows_le (machine : Machine) {height : Nat} (hHeight : height ≤ 32) :
    (machine.spriteRows height).length ≤ 32 :=
  (machine.length_spriteRows height).trans_le hHeight

theorem bit_spriteRows (machine : Machine) {height row : Nat} (hRow : row < height)
    (column : Nat) :
    Sprite.bit (machine.spriteRows height) row column = machine.spriteBit row column := by
  rw [Sprite.bit, spriteRows, Memory.getElem?_readAll _ _ hRow, Option.getD_some, spriteBit,
    read_place]

/-- A pixel is covered if a bit of the sprite lies over it. -/
theorem covers_iff (machine : Machine) {x y height px py : Nat} (hColumn : px < 64)
    (hLine : py < 32) :
    1 ≤ Sprite.coverage x y (machine.spriteRows height) px py ↔
      ∃ row < height, ∃ column < 8, machine.spriteBit row column = true ∧
        (x + column) % 64 = px ∧ (y + row) % 32 = py := by
  rw [Sprite.coverage_pos_iff, length_spriteRows, Nat.mod_eq_of_lt hColumn, Nat.mod_eq_of_lt hLine]
  refine exists_congr fun row => and_congr_right fun hRow => ?_
  simp only [machine.bit_spriteRows hRow]

/-! ## The sprite on the screen -/

/-- Whether a draw of the sprite at the coordinates in two registers collides, and the screen
after it. -/
def drawnSprite (machine : Machine) (x y : Register) (height : Nat) : Bool × Screen :=
  machine.screen.draw (machine.value x).toNat (machine.value y).toNat (machine.spriteRows height)

variable {x y : Register} {height : Nat}

theorem pixel_drawnSprite_ne_iff (machine : Machine) (hHeight : height ≤ 32) {px py : Nat}
    (hColumn : px < 64) (hLine : py < 32) :
    (machine.drawnSprite x y height).2.pixel px py ≠ machine.screen.pixel px py ↔
      ∃ row < height, ∃ column < 8, machine.spriteBit row column = true ∧
        ((machine.value x).toNat + column) % 64 = px ∧
        ((machine.value y).toNat + row) % 32 = py := by
  rw [drawnSprite, Screen.pixel_draw_ne_iff _ _ _ (machine.length_spriteRows_le hHeight),
    machine.covers_iff hColumn hLine]

theorem drawnSprite_collides_iff (machine : Machine) (hHeight : height ≤ 32) :
    (machine.drawnSprite x y height).1 = true ↔
      machine.screen.LosesPixel (machine.drawnSprite x y height).2 :=
  machine.screen.draw_collides_iff_losesPixel _ _ (machine.length_spriteRows_le hHeight)

/-- A draw that finds the screen after another one, and whatever else it reads as it was before. -/
theorem drawnSprite_again {machine next : Machine}
    (hScreen : next.screen = (machine.drawnSprite x y height).2)
    (hX : next.value x = machine.value x) (hY : next.value y = machine.value y)
    (hIndex : next.index = machine.index) (hMemory : next.memory = machine.memory) :
    next.drawnSprite x y height = (machine.drawnSprite x y height).2.draw (machine.value x).toNat
      (machine.value y).toNat (machine.spriteRows height) := by
  rw [drawnSprite, hScreen, hX, hY, spriteRows, hIndex, hMemory, spriteRows]

/-- If neither of two draws of the sprite at the same place collides, it has no set bit. -/
theorem spriteBit_eq_false (machine : Machine) {screen : Screen} {left top : Nat}
    (hHeight : height ≤ 32) (hFirst : (screen.draw left top (machine.spriteRows height)).1 = false)
    (hSecond : ((screen.draw left top (machine.spriteRows height)).2.draw left top
      (machine.spriteRows height)).1 = false) {row column : Nat} (hRow : row < height)
    (hColumn : column < 8) : machine.spriteBit row column = false := by
  have hInside : (left + column) % 64 < 64 ∧ (top + row) % 32 < 32 :=
    ⟨Nat.mod_lt _ (by decide), Nat.mod_lt _ (by decide)⟩
  have hUncovered := Screen.coverage_eq_zero_of_no_collision
    (machine.length_spriteRows_le hHeight) hFirst hSecond hInside.1 hInside.2
  rw [← Bool.not_eq_true]
  intro hBit
  have hCovered := (machine.covers_iff hInside.1 hInside.2).mpr
    ⟨row, hRow, column, hColumn, hBit, rfl, rfl⟩
  rw [hUncovered] at hCovered
  exact absurd hCovered (by decide)

/-! ## The instruction -/

/-- The flag of a draw as a byte. -/
theorem toUInt8_eq_zero_iff (flag : Bool) : flag.toUInt8 = 0 ↔ flag = false := by
  cases flag <;> decide

/-- `DXYN`, with what it leaves behind in the machine. -/
theorem obeys_draw (machine : Machine) (x y : Register) (hHeight : height < 16) :
    ∃ next, machine.Obeys (registerPair 0xD x y height) .draw next ∧
      next.screen = (machine.drawnSprite x y height).2 ∧
      next.value Register.flag = (machine.drawnSprite x y height).1.toUInt8 ∧
      (∀ z, z ≠ Register.flag → next.value z = machine.value z) ∧
      next.index = machine.index ∧ next.memory = machine.memory ∧
      next.counter.toNat = (machine.counter.toNat + 2) % 0x10000 := by
  have hNumber : (UInt8.ofNat height).toNat = height :=
    UInt8.toNat_ofNat_of_lt (Nat.lt_trans hHeight (by decide))
  have hFits : (Instruction.draw x y (UInt8.ofNat height)).Fits := by
    rw [Instruction.Fits, hNumber]
    exact hHeight
  have hEffect : machine.effect (.draw x y (UInt8.ofNat height)) =
      .ok ⟨machine.drawSprite x y (UInt8.ofNat height), .next, .draw⟩ := rfl
  have hObeys := obeys_encode _ hFits hEffect
  rw [Instruction.encode, drawSprite, hNumber] at hObeys
  have hValue (z : Register) := machine.registers.get_set Register.flag z
    (machine.drawnSprite x y height).1.toUInt8
  refine ⟨_, hObeys, rfl, ?_, fun z hOther => ?_, rfl, rfl, toNat_counter_advance_next _⟩
  · exact (hValue _).trans (if_pos rfl)
  · exact (hValue z).trans (if_neg hOther.symm)

/-- `DXYN` flips the pixels under the set bits of the sprite, each of them once, and no others.
The flag register then says whether a pixel was turned off, even if it held a coordinate, and
nothing else changes in registers, index register and memory.  If it held none, the same
instruction again brings back the screen, and one of the two draws collides unless the sprite
has no set bit. -/
theorem draw_flips_what_it_covers (machine : Machine) (x y : Register) {height : Nat}
    (hHeight : height < 16) :
    let left := (machine.value x).toNat
    let top := (machine.value y).toNat
    let flips := Sprite.cells left top (machine.spriteRows height)
    ∃ next, machine.Obeys (registerPair 0xD x y height) .draw next ∧
      (∀ px < 64, ∀ py < 32, next.screen.pixel px py ≠ machine.screen.pixel px py ↔
        ∃ row < height, ∃ column < 8, machine.spriteBit row column = true ∧
          (left + column) % 64 = px ∧ (top + row) % 32 = py) ∧
      next.screen = (machine.screen.flipAll flips).2 ∧ flips.Nodup ∧
      (machine.screen.LosesPixel next.screen → next.value Register.flag = 1) ∧
      (¬ machine.screen.LosesPixel next.screen → next.value Register.flag = 0) ∧
      (∀ z, z ≠ Register.flag → next.value z = machine.value z) ∧
      next.index = machine.index ∧ next.memory = machine.memory ∧
      next.counter.toNat = (machine.counter.toNat + 2) % 0x10000 ∧
      (x ≠ Register.flag → y ≠ Register.flag →
        ∃ again, next.Obeys (registerPair 0xD x y height) .draw again ∧
          again.screen = machine.screen ∧
          (next.value Register.flag = 0 → again.value Register.flag = 0 →
            ∀ row < height, ∀ column < 8, machine.spriteBit row column = false)) := by
  intro left top flips
  have hLow : height ≤ 32 := Nat.le_trans hHeight.le (by decide)
  obtain ⟨next, hObeys, hScreen, hFlag, hOthers, hIndex, hMemory, hCounter⟩ :=
    machine.obeys_draw x y hHeight
  refine ⟨next, hObeys, ?_, hScreen, ?_, ?_, ?_, hOthers, hIndex, hMemory, hCounter, ?_⟩
  · intro px hColumn py hLine
    rw [hScreen]
    exact machine.pixel_drawnSprite_ne_iff hLow hColumn hLine
  · exact Sprite.nodup_cells left top (machine.length_spriteRows_le hLow)
  · intro hLoses
    rw [hScreen, ← machine.drawnSprite_collides_iff hLow] at hLoses
    rw [hFlag, hLoses]
    rfl
  · intro hKeeps
    rw [hScreen, ← machine.drawnSprite_collides_iff hLow, Bool.not_eq_true] at hKeeps
    rw [hFlag, hKeeps]
    rfl
  · intro hX hY
    -- the second draw finds the same coordinates, and the same sprite
    have hDrawn := drawnSprite_again hScreen (hOthers x hX) (hOthers y hY) hIndex hMemory
    obtain ⟨again, hAgain, hBack, hSecondFlag, -⟩ := next.obeys_draw x y hHeight
    rw [hDrawn] at hBack hSecondFlag
    refine ⟨again, hAgain, hBack.trans (machine.screen.draw_draw _ _ _), ?_⟩
    intro hFirst hSecond row hRow column hColumn
    rw [hFlag, toUInt8_eq_zero_iff] at hFirst
    rw [hSecondFlag, toUInt8_eq_zero_iff] at hSecond
    exact machine.spriteBit_eq_false hLow hFirst hSecond hRow hColumn

/-- A sprite of three rows that starts in the last byte of the memory, which is empty, goes on
with the first two rows of a glyph.  Near the corner of the screen it wraps around both edges,
and a second draw of it turns its pixels off. -/
theorem draw_flips_what_it_covers_wrapped :
    let start := fresh (Entropy.ofWords fun _ => 0)
    let machine := { start with index := 0xFFFF, registers := start.registers.setFront [62, 30] }
    ∃ next again, machine.Obeys 0xD013 .draw next ∧
      next.screen.pixel 0 31 = true ∧ next.screen.pixel 1 0 = true ∧
      next.screen.pixel 0 0 = false ∧ next.value Register.flag = 0 ∧
      next.counter.toNat = 0x202 ∧ next.Obeys 0xD013 .draw again ∧
      again.screen = Screen.blank ∧ again.value Register.flag ≠ 0 := by
  intro start machine
  obtain ⟨next, hObeys, hPixels, -, -, -, hKeeps, -, -, -, hCounter, hTwice⟩ :=
    draw_flips_what_it_covers machine 0 1 (show 3 < 16 by decide)
  have hLeft : (machine.value 0).toNat = 62 := by decide +kernel
  have hTop : (machine.value 1).toNat = 30 := by decide +kernel
  rw [hLeft, hTop] at hPixels
  obtain ⟨again, hAgain, hBack, hEmpty⟩ := hTwice (by decide) (by decide)
  have hOff (px py : Nat) : machine.screen.pixel px py = false := Screen.lit_blank _
  have hFlag : next.value Register.flag = 0 := by
    refine hKeeps fun ⟨px, _, py, _, hOn, _⟩ => ?_
    rw [hOff] at hOn
    exact Bool.false_ne_true hOn
  have hOn {px py : Nat} (hColumn : px < 64) (hLine : py < 32)
      (hCovered : ∃ row < 3, ∃ column < 8, machine.spriteBit row column = true ∧
        (62 + column) % 64 = px ∧ (30 + row) % 32 = py) : next.screen.pixel px py = true := by
    have hChanged := (hPixels px hColumn py hLine).mpr hCovered
    rw [hOff] at hChanged
    exact Bool.eq_true_of_not_eq_false hChanged
  refine ⟨next, again, hObeys, hOn (by decide) (by decide) ⟨1, by decide, 2, by decide, ?_⟩,
    hOn (by decide) (by decide) ⟨2, by decide, 3, by decide, ?_⟩, ?_, hFlag, hCounter, hAgain,
    hBack, fun hAgainFlag => ?_⟩
  · decide +kernel
  · decide +kernel
  · have hSame := (hPixels 0 (by decide) 0 (by decide)).not.mpr (by decide +kernel)
    rw [← hOff 0 0]
    exact not_not.mp hSame
  · have hBit := hEmpty hFlag hAgainFlag 1 (by decide) 0 (by decide)
    exact absurd hBit (by decide +kernel)

end Machine
end ChipEight
