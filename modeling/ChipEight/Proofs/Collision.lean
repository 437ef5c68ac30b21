import Mathlib.Algebra.BigOperators.Ring.Finset
import ChipEight.Proofs.SpriteSum

/-!
# Collisions

A draw collides if one of its flips turns a pixel off.  The flips are made one after the other,
so a sprite that is higher than the screen can collide with its own upper rows.  A sprite that
is not higher covers each pixel at most once: then a collision is the same as a pixel that was on
before the draw and is off after it, and the pixels that are on can be counted.

* `Screen.flipAll_collides_iff` — whether any flips collide, from the number of flips of each
  pixel;
* `Sprite.coverage_le_one` — a sprite that is not higher than the screen covers no pixel twice;
* `Screen.pixel_draw` — a pixel after a draw;
* `Screen.draw_collides_iff`, `Screen.draw_collides_iff_losesPixel` — whether a draw collides;
* `Screen.litCount_add_turnedOff` — the count of pixels that are on, before and after a draw;
* `Screen.draw_collides_iff_covered` — the law of collisions for sprites of any height.
-/

namespace ChipEight

/-- Every place is that of some pixel on the screen. -/
theorem Cell.exists_atPoint_eq (cell : Cell) :
    ∃ px < 64, ∃ py < 32, Cell.atPoint px py = cell := by
  have hCell : cell.val < 2048 := cell.isLt
  refine ⟨cell.val % 64, by omega, cell.val / 64, by omega, Fin.ext ?_⟩
  simp only [Cell.atPoint]
  omega

/-- The coordinates of the pixels on the screen. -/
def Screen.points : Finset (Nat × Nat) := Finset.range 64 ×ˢ Finset.range 32

theorem Screen.mem_points {point : Nat × Nat} :
    point ∈ points ↔ point.1 < 64 ∧ point.2 < 32 := by
  rw [points, Finset.mem_product, Finset.mem_range, Finset.mem_range]

-- membership is by the bounds, as writing out all 2048 points is too much for the elaborator
attribute [irreducible] Screen.points

namespace Sprite

/-! ## Set bits and the pixels under them -/

/-- The number of set bits of a sprite. -/
def weight (rows : List UInt8) : Nat :=
  Finset.card {place ∈ Finset.range rows.length ×ˢ Finset.range 8 |
    bit rows place.1 place.2 = true}

theorem coverage_pos_iff {x y : Nat} {rows : List UInt8} {px py : Nat} :
    1 ≤ coverage x y rows px py ↔
      ∃ row < rows.length, ∃ column < 8, bit rows row column = true ∧
        (x + column) % 64 = px % 64 ∧ (y + row) % 32 = py % 32 := by
  simp only [coverage, Nat.succ_le_iff, Finset.card_pos, Finset.Nonempty, Finset.mem_filter,
    Finset.mem_product, Finset.mem_range, Prod.exists]
  constructor
  · rintro ⟨row, column, ⟨hRow, hColumn⟩, hCovers⟩
    exact ⟨row, hRow, column, hColumn, hCovers⟩
  · rintro ⟨row, hRow, column, hColumn, hCovers⟩
    exact ⟨row, column, ⟨hRow, hColumn⟩, hCovers⟩

/-- Two rows of such a sprite are on different lines of the screen, and two columns always are
in different ones. -/
theorem coverage_le_one (x y : Nat) {rows : List UInt8} (hHeight : rows.length ≤ 32)
    (px py : Nat) : coverage x y rows px py ≤ 1 := by
  refine Finset.card_le_one.mpr fun first hFirst second hSecond => ?_
  simp only [Finset.mem_filter, Finset.mem_product, Finset.mem_range] at hFirst hSecond
  exact Prod.ext (by omega) (by omega)

theorem coverage_eq_zero_or_one (x y : Nat) {rows : List UInt8} (hHeight : rows.length ≤ 32)
    (px py : Nat) : coverage x y rows px py = 0 ∨ coverage x y rows px py = 1 := by
  have hAtMost := coverage_le_one x y hHeight px py
  omega

/-- So no pixel is flipped twice. -/
theorem nodup_cells (x y : Nat) {rows : List UInt8} (hHeight : rows.length ≤ 32) :
    (cells x y rows).Nodup := by
  refine List.nodup_iff_count_le_one.mpr fun cell => ?_
  obtain ⟨px, -, py, -, rfl⟩ := cell.exists_atPoint_eq
  rw [count_cells]
  exact coverage_le_one x y hHeight px py

/-- Every set bit lies over exactly one pixel of the screen. -/
theorem sum_coverage (x y : Nat) (rows : List UInt8) :
    ∑ point ∈ Screen.points, coverage x y rows point.1 point.2 = weight rows := by
  let under (place : Nat × Nat) : Nat × Nat := ((x + place.2) % 64, (y + place.1) % 32)
  have hUnder (places : Finset (Nat × Nat)) :
      Set.MapsTo under (places : Set (Nat × Nat)) (Screen.points : Set (Nat × Nat)) := by
    intro place _
    rw [Finset.mem_coe, Screen.mem_points]
    exact ⟨Nat.mod_lt _ (by decide), Nat.mod_lt _ (by decide)⟩
  rw [weight, Finset.card_eq_sum_card_fiberwise (hUnder _)]
  refine Finset.sum_congr rfl fun point hPoint => ?_
  obtain ⟨hColumn, hLine⟩ := Screen.mem_points.mp hPoint
  rw [coverage, Finset.filter_filter]
  refine congrArg Finset.card (Finset.filter_congr fun place _ => ?_)
  rw [Prod.ext_iff, Nat.mod_eq_of_lt hColumn, Nat.mod_eq_of_lt hLine]

end Sprite

namespace Screen

/-! ## Collisions of flips -/

/-- Flips collide if they hit a pixel that is on, or hit a pixel twice. -/
theorem flipAll_collides_iff (screen : Screen) (cells : List Cell) :
    (screen.flipAll cells).1 = true ↔
      ∃ cell, (screen.lit cell = true ∧ 1 ≤ cells.count cell) ∨
        (screen.lit cell = false ∧ 2 ≤ cells.count cell) := by
  induction cells generalizing screen with
  | nil => simp [flipAll]
  | cons flipped cells ih =>
    rw [flipAll, Bool.or_eq_true, ih]
    cases hLit : screen.lit flipped with
    | true =>
      -- the first flip collides
      refine iff_of_true (Or.inl rfl) ⟨flipped, Or.inl ⟨hLit, ?_⟩⟩
      rw [List.count_cons_self]
      omega
    | false =>
      -- the first flip turns its pixel on, so the next one that hits it collides
      simp only [Bool.false_eq_true, false_or]
      refine exists_congr fun cell => ?_
      rw [lit_flip]
      by_cases hSame : flipped = cell
      · subst hSame
        simp [hLit]
      · simp [hSame]

/-! ## A draw -/

/-- A pixel changes if an odd number of set bits lies over it. -/
theorem pixel_draw (screen : Screen) (x y : Nat) (rows : List UInt8) (px py : Nat) :
    (screen.draw x y rows).2.pixel px py =
      (screen.pixel px py ^^ (Sprite.coverage x y rows px py).bodd) := by
  rw [pixel, draw, lit_flipAll, Sprite.count_cells, pixel]

/-- Whether a draw collides, from the number of set bits over each pixel. -/
theorem draw_collides_iff (screen : Screen) (x y : Nat) (rows : List UInt8) :
    (screen.draw x y rows).1 = true ↔
      ∃ px < 64, ∃ py < 32,
        (screen.pixel px py = true ∧ 1 ≤ Sprite.coverage x y rows px py) ∨
          (screen.pixel px py = false ∧ 2 ≤ Sprite.coverage x y rows px py) := by
  rw [draw, flipAll_collides_iff]
  constructor
  · rintro ⟨cell, hHit⟩
    obtain ⟨px, hColumn, py, hLine, rfl⟩ := cell.exists_atPoint_eq
    rw [Sprite.count_cells] at hHit
    exact ⟨px, hColumn, py, hLine, hHit⟩
  · rintro ⟨px, -, py, -, hHit⟩
    refine ⟨Cell.atPoint px py, ?_⟩
    rw [Sprite.count_cells]
    exact hHit

/-- The number of pixels that are on. -/
def litCount (screen : Screen) : Nat :=
  Finset.card {point ∈ points | screen.pixel point.1 point.2 = true}

/-- The number of pixels that are on in the first screen and off in the second. -/
def turnedOff (before after : Screen) : Nat :=
  Finset.card {point ∈ points |
    before.pixel point.1 point.2 = true ∧ after.pixel point.1 point.2 = false}

/-- Some pixel is on in the first screen and off in the second. -/
def LosesPixel (before after : Screen) : Prop :=
  ∃ px < 64, ∃ py < 32, before.pixel px py = true ∧ after.pixel px py = false

/-- If no pixel is covered twice, each set bit turns a pixel on or off. -/
theorem litCount_add_turnedOff (screen : Screen) (x y : Nat) {rows : List UInt8}
    (hHeight : rows.length ≤ 32) :
    (screen.draw x y rows).2.litCount + 2 * screen.turnedOff (screen.draw x y rows).2 =
      screen.litCount + Sprite.weight rows := by
  simp only [litCount, turnedOff, Finset.card_filter, Finset.mul_sum, ← Finset.sum_add_distrib,
    ← Sprite.sum_coverage x y]
  refine Finset.sum_congr rfl fun point _ => ?_
  rw [pixel_draw]
  rcases Sprite.coverage_eq_zero_or_one x y hHeight point.1 point.2 with hNone | hOnce
  · rw [hNone]
    cases screen.pixel point.1 point.2 <;> rfl
  · rw [hOnce]
    cases screen.pixel point.1 point.2 <;> rfl

/-- If no pixel is covered twice, the flips that collide are those of pixels that were on. -/
theorem covered_iff_turned_off (screen : Screen) (x y : Nat) {rows : List UInt8}
    (hHeight : rows.length ≤ 32) (px py : Nat) :
    (screen.pixel px py = true ∧ 1 ≤ Sprite.coverage x y rows px py) ∨
        (screen.pixel px py = false ∧ 2 ≤ Sprite.coverage x y rows px py) ↔
      screen.pixel px py = true ∧ (screen.draw x y rows).2.pixel px py = false := by
  rw [pixel_draw]
  rcases Sprite.coverage_eq_zero_or_one x y hHeight px py with hNone | hOnce
  · simp [hNone]
  · cases hPixel : screen.pixel px py <;> simp [hOnce]

/-- A sprite that is not higher than the screen collides exactly if a pixel is lost. -/
theorem draw_collides_iff_losesPixel (screen : Screen) (x y : Nat) {rows : List UInt8}
    (hHeight : rows.length ≤ 32) :
    (screen.draw x y rows).1 = true ↔ screen.LosesPixel (screen.draw x y rows).2 := by
  simp only [draw_collides_iff, screen.covered_iff_turned_off x y hHeight, LosesPixel]

/-- A draw collides if some pixel was on and is covered by a set bit, or was off and is covered
by two: the flips of a pixel alternate, so the second one turns it off.  A sprite that is not
higher than the screen collides exactly if a pixel was on before and is off after the draw.  Then
the number of pixels that are on grows by the number of set bits, less two for each pixel that
was turned off. -/
theorem draw_collides_iff_covered (screen : Screen) (x y : Nat) (rows : List UInt8) :
    ((screen.draw x y rows).1 = true ↔
      ∃ px < 64, ∃ py < 32,
        (screen.pixel px py = true ∧ 1 ≤ Sprite.coverage x y rows px py) ∨
          (screen.pixel px py = false ∧ 2 ≤ Sprite.coverage x y rows px py)) ∧
    (rows.length ≤ 32 →
      ((screen.draw x y rows).1 = true ↔ screen.LosesPixel (screen.draw x y rows).2) ∧
      (screen.draw x y rows).2.litCount + 2 * screen.turnedOff (screen.draw x y rows).2 =
        screen.litCount + Sprite.weight rows) := by
  refine ⟨screen.draw_collides_iff x y rows, fun hHeight => ⟨?_, ?_⟩⟩
  · exact screen.draw_collides_iff_losesPixel x y hHeight
  · exact screen.litCount_add_turnedOff x y hHeight

/-- A sprite of 33 rows collides with itself on a screen that is all off.  A square in the corner
of the screen lies on all four of its corners, and turns off one pixel that was on there. -/
theorem draw_collides_iff_covered_wrapped :
    let tall : List UInt8 := List.replicate 33 0x80
    let screen := (blank.draw 0 0 [0x80]).2
    let square : List UInt8 := [0xC0, 0xC0]
    (blank.draw 0 0 tall).1 = true ∧ (screen.draw 63 31 square).1 = true ∧
      screen.LosesPixel (screen.draw 63 31 square).2 ∧
      (screen.draw 63 31 square).2.litCount + 2 * screen.turnedOff (screen.draw 63 31 square).2 =
        screen.litCount + 4 := by
  intro tall screen square
  obtain ⟨hTall, -⟩ := draw_collides_iff_covered blank 0 0 tall
  obtain ⟨hSquare, hLow⟩ := draw_collides_iff_covered screen 63 31 square
  obtain ⟨hLoses, hCount⟩ := hLow (by decide)
  have hCollides : (screen.draw 63 31 square).1 = true :=
    hSquare.mpr ⟨0, by decide, 0, by decide, by decide +kernel⟩
  refine ⟨?_, hCollides, hLoses.mp hCollides, hCount.trans ?_⟩
  · exact hTall.mpr ⟨0, by decide, 0, by decide, by decide +kernel⟩
  · exact congrArg (screen.litCount + ·) (by decide +kernel)

end Screen
end ChipEight
