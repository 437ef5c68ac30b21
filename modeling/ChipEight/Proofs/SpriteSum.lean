import Mathlib.Algebra.BigOperators.Group.Finset.Piecewise
import Mathlib.Algebra.BigOperators.Group.Finset.Sigma
import Mathlib.Algebra.GroupWithZero.Nat
import Mathlib.Data.List.DropRight
import Mathlib.Data.Nat.Bits
import ChipEight.Screen

/-!
# The screen as the sum of its draws

A draw flips the pixel under every set bit of its sprite, and a sprite that is higher than the
screen flips some of them several times.  Flips of one pixel cancel in pairs and flips of
different pixels do not disturb each other, so nothing of a sequence of draws matters but how
often each pixel was hit, and of that only the parity.

* `Sprite.coverage` — how many set bits of a sprite lie over a pixel;
* `Screen.lit_flipAll` — a pixel after any flips, from the number of flips that hit it;
* `Screen.after_of_draws` — draws without a clear flip the cells under all of them;
* `Screen.lit_after` — what came before the last clear does not count;
* `Screen.after_is_the_sum_of_its_draws` — the law for pixels, and what follows from it for
  sequences of draws.
-/

namespace ChipEight

namespace Cell

/-- Coordinates denote the same place if they agree modulo the width and the height. -/
theorem atPoint_eq_atPoint_iff {x y otherX otherY : Nat} :
    atPoint x y = atPoint otherX otherY ↔ x % 64 = otherX % 64 ∧ y % 32 = otherY % 32 := by
  simp only [atPoint, Fin.mk.injEq]
  omega

end Cell

namespace Sprite

/-! ## Set bits over a pixel -/

/-- Whether a bit of a sprite is set.  Rows are counted from the top, columns from the left. -/
def bit (rows : List UInt8) (row column : Nat) : Bool :=
  (rows[row]?.getD 0).toNat.testBit (7 - column)

/-- The number of set bits of a sprite at `(x, y)` that lie over the pixel `(px, py)`. -/
def coverage (x y : Nat) (rows : List UInt8) (px py : Nat) : Nat :=
  Finset.card {place ∈ Finset.range rows.length ×ˢ Finset.range 8 |
    bit rows place.1 place.2 = true ∧
      (x + place.2) % 64 = px % 64 ∧ (y + place.1) % 32 = py % 32}

/-- The bits are counted row by row. -/
theorem coverage_eq_sum (x y : Nat) (rows : List UInt8) (px py : Nat) :
    coverage x y rows px py =
      ∑ row ∈ Finset.range rows.length, Finset.card {column ∈ Finset.range 8 |
        bit rows row column = true ∧
          (x + column) % 64 = px % 64 ∧ (y + row) % 32 = py % 32} := by
  simp only [coverage, Finset.card_filter, Finset.sum_product]

theorem count_rowCells (x y : Nat) (row : UInt8) (px py : Nat) :
    (rowCells x y row).count (Cell.atPoint px py) =
      Finset.card {column ∈ Finset.range 8 |
        row.toNat.testBit (7 - column) = true ∧
          (x + column) % 64 = px % 64 ∧ y % 32 = py % 32} := by
  rw [rowCells, List.count_filterMap, List.countP_eq_length_filter]
  refine congrArg List.length (List.filter_congr fun column _ => ?_)
  by_cases hSet : row.toNat.testBit (7 - column) = true
  · simp [hSet, beq_eq_decide, Cell.atPoint_eq_atPoint_iff]
  · simp [hSet]

/-- A place occurs among the cells of a sprite as often as set bits lie over it. -/
theorem count_cells (x y : Nat) (rows : List UInt8) (px py : Nat) :
    (cells x y rows).count (Cell.atPoint px py) = coverage x y rows px py := by
  induction rows generalizing y with
  | nil => rfl
  | cons row rows ih =>
    have hLater (place : Nat) : y + 1 + place = y + (place + 1) := by omega
    rw [cells, List.count_append, ih, count_rowCells, coverage_eq_sum, coverage_eq_sum,
      List.length_cons, Finset.sum_range_succ', Nat.add_comm]
    simp only [hLater]
    rfl

/-- Coordinates that denote the same place move a sprite to the same cells. -/
theorem cells_congr {x y otherX otherY : Nat} (hX : x % 64 = otherX % 64)
    (hY : y % 32 = otherY % 32) (rows : List UInt8) :
    cells x y rows = cells otherX otherY rows := by
  induction rows generalizing y otherY with
  | nil => rfl
  | cons row rows ih =>
    have hRow (column : Nat) :
        Cell.atPoint (x + column) y = Cell.atPoint (otherX + column) otherY :=
      Cell.atPoint_eq_atPoint_iff.mpr ⟨by omega, hY⟩
    have hBelow : (y + 1) % 32 = (otherY + 1) % 32 := by omega
    simp only [cells, rowCells, hRow, ih hBelow]

end Sprite

namespace Screen

/-! ## Any number of flips -/

/-- Screens with the same pixels are the same. -/
theorem eq_of_lit {screen other : Screen} (hLit : ∀ cell, screen.lit cell = other.lit cell) :
    screen = other := by
  obtain ⟨pixels⟩ := screen
  obtain ⟨others⟩ := other
  congr 1
  ext place hPlace
  exact hLit ⟨place, hPlace⟩

theorem flipAll_append (screen : Screen) (first second : List Cell) :
    (screen.flipAll (first ++ second)).2 = ((screen.flipAll first).2.flipAll second).2 := by
  induction first generalizing screen with
  | nil => rfl
  | cons cell cells ih => exact ih (screen.flip cell)

/-- After any flips a pixel has changed if an odd number of them hit it. -/
theorem lit_flipAll (screen : Screen) (cells : List Cell) (cell : Cell) :
    (screen.flipAll cells).2.lit cell = (screen.lit cell ^^ (cells.count cell).bodd) := by
  induction cells generalizing screen with
  | nil => simp [flipAll]
  | cons flipped cells ih =>
    rw [flipAll, ih, lit_flip]
    by_cases hSame : flipped = cell
    · simp [hSame, Nat.bodd_succ]
    · simp [hSame]

/-- Flips that hit each pixel equally often, up to an even number, do the same. -/
theorem flipAll_congr {cells others : List Cell}
    (hCount : ∀ cell, (cells.count cell).bodd = (others.count cell).bodd) (screen : Screen) :
    (screen.flipAll cells).2 = (screen.flipAll others).2 := by
  refine eq_of_lit fun cell => ?_
  rw [lit_flipAll, lit_flipAll, hCount]

/-! ## Sequences of draws -/

namespace Action

def isClear : Action → Bool
  | .clear => true
  | .draw _ _ _ => false

/-- The cells that an action flips. -/
def cells : Action → List Cell
  | .clear => []
  | .draw x y rows => Sprite.cells x y rows

/-- The number of set sprite bits that an action draws over the pixel `(px, py)`. -/
def coverage (px py : Nat) : Action → Nat
  | .clear => 0
  | .draw x y rows => Sprite.coverage x y rows px py

theorem count_cells (px py : Nat) (action : Action) :
    action.cells.count (Cell.atPoint px py) = action.coverage px py := by
  cases action with
  | clear => rfl
  | draw x y rows => exact Sprite.count_cells x y rows px py

end Action

/-- The actions after the last clear, or all of them if there is none. -/
def sinceClear (actions : List Action) : List Action :=
  actions.rtakeWhile fun action => !action.isClear

theorem after_append (screen : Screen) (first second : List Action) :
    screen.after (first ++ second) = (screen.after first).after second :=
  List.foldl_append

/-- Draws without a clear among them flip the cells under all of them. -/
theorem after_of_draws {draws : List Action} (hDraws : ∀ action ∈ draws, action.isClear = false)
    (screen : Screen) :
    screen.after draws = (screen.flipAll (draws.flatMap Action.cells)).2 := by
  induction draws generalizing screen with
  | nil => rfl
  | cons action draws ih =>
    obtain ⟨hFirst, hLater⟩ := List.forall_mem_cons.mp hDraws
    rw [List.flatMap_cons, flipAll_append, ← ih hLater]
    cases action with
    | clear => contradiction
    | draw x y rows => rfl

/-- Draws in a stretch without a clear can be replaced by draws that hit each pixel equally
often, up to an even number. -/
theorem after_congr {draws others : List Action}
    (hDraws : ∀ action ∈ draws, action.isClear = false)
    (hOthers : ∀ action ∈ others, action.isClear = false)
    (hCount : ∀ cell, ((draws.flatMap Action.cells).count cell).bodd =
      ((others.flatMap Action.cells).count cell).bodd)
    (screen : Screen) (before rest : List Action) :
    screen.after (before ++ draws ++ rest) = screen.after (before ++ others ++ rest) := by
  simp only [after_append, after_of_draws hDraws, after_of_draws hOthers, flipAll_congr hCount]

/-- A pixel after any actions: what came before the last clear does not count. -/
theorem lit_after (screen : Screen) (actions : List Action) (cell : Cell) :
    (screen.after actions).lit cell =
      ((if actions.any Action.isClear then false else screen.lit cell) ^^
        (((sinceClear actions).flatMap Action.cells).count cell).bodd) := by
  -- the stretch after the last clear is cut off at the end, so that is where actions are added
  induction actions using List.reverseRecOn with
  | nil => simp [after, sinceClear]
  | append_singleton actions action ih =>
    cases action with
    | clear =>
      have hSince : sinceClear (actions ++ [.clear]) = [] :=
        List.rtakeWhile_concat_neg _ _ _ (by simp [Action.isClear])
      rw [after_append, hSince]
      simp [after, perform, Action.isClear]
    | draw x y rows =>
      have hSince : sinceClear (actions ++ [.draw x y rows]) =
          sinceClear actions ++ [.draw x y rows] :=
        List.rtakeWhile_concat_pos _ _ _ rfl
      have hAfter : screen.after (actions ++ [.draw x y rows]) =
          ((screen.after actions).flipAll (Sprite.cells x y rows)).2 := after_append _ _ _
      rw [hAfter, lit_flipAll, ih, hSince, List.flatMap_append, List.count_append, Nat.bodd_add,
        Bool.xor_assoc]
      simp [Action.isClear, Action.cells]

theorem count_flatMap_cells (px py : Nat) (actions : List Action) :
    (actions.flatMap Action.cells).count (Cell.atPoint px py) =
      (actions.map (Action.coverage px py)).sum := by
  rw [List.count_flatMap]
  exact congrArg List.sum (List.map_congr_left fun action _ => action.count_cells px py)

/-- A sprite flips the same cells as its rows, drawn one by one. -/
theorem cells_rows (x y : Nat) (rows : List UInt8) :
    (rows.mapIdx fun place row => Action.draw x (y + place) [row]).flatMap Action.cells =
      Sprite.cells x y rows := by
  induction rows generalizing y with
  | nil => rfl
  | cons row rows ih =>
    have hLater (place : Nat) (row : UInt8) :
        Action.draw x (y + (place + 1)) [row] = .draw x (y + 1 + place) [row] := by
      rw [Nat.add_assoc, Nat.add_comm 1 place]
    rw [List.mapIdx_cons, List.flatMap_cons, funext₂ hLater, ih]
    simp only [Action.cells, Sprite.cells, List.append_nil, Nat.add_zero]

/-- The screen is the sum of its draws.  After any actions a pixel is on if an odd number of
set sprite bits was drawn over it since the last clear, and if there was no clear the pixel was
on or off to begin with, which counts as one more.  So the order of the draws between two clears
makes no difference, a sprite that is drawn twice between them cancels out, wherever in between
and also at coordinates that wrap around to the same place, and a sprite can be drawn row by
row. -/
theorem after_is_the_sum_of_its_draws (screen : Screen) :
    (∀ (actions : List Action) (px py : Nat),
      (screen.after actions).pixel px py =
        ((if actions.any Action.isClear then false else screen.pixel px py) ^^
          ((sinceClear actions).map (Action.coverage px py)).sum.bodd)) ∧
    (∀ before draws shuffled rest : List Action,
      (∀ action ∈ draws, action.isClear = false) → draws.Perm shuffled →
        screen.after (before ++ draws ++ rest) = screen.after (before ++ shuffled ++ rest)) ∧
    (∀ (before between rest : List Action) (x y otherX otherY : Nat) (rows : List UInt8),
      (∀ action ∈ between, action.isClear = false) → x % 64 = otherX % 64 →
        y % 32 = otherY % 32 →
        screen.after (before ++ (.draw x y rows :: between ++ [.draw otherX otherY rows]) ++ rest) =
          screen.after (before ++ between ++ rest)) ∧
    ∀ (before rest : List Action) (x y : Nat) (rows : List UInt8),
      screen.after (before ++ [.draw x y rows] ++ rest) =
        screen.after
          (before ++ (rows.mapIdx fun place row => .draw x (y + place) [row]) ++ rest) := by
  refine ⟨?_, ?_, ?_, ?_⟩
  · intro actions px py
    rw [pixel, lit_after, count_flatMap_cells, pixel]
  · intro before draws shuffled rest hDraws hPerm
    refine after_congr hDraws (fun action hMem => hDraws action (hPerm.mem_iff.mpr hMem)) ?_ _ _ _
    intro cell
    rw [(hPerm.flatMap_right Action.cells).count_eq]
  · intro before between rest x y otherX otherY rows hBetween hX hY
    refine after_congr ?_ hBetween ?_ _ _ _
    · intro action hMem
      simp only [List.cons_append, List.mem_cons, List.mem_append, List.not_mem_nil,
        or_false] at hMem
      rcases hMem with rfl | hMem | rfl
      · rfl
      · exact hBetween action hMem
      · rfl
    · intro cell
      -- the cells of the sprite are counted once for each of the two draws
      have hCells : Sprite.cells otherX otherY rows = Sprite.cells x y rows :=
        (Sprite.cells_congr hX hY rows).symm
      have hTwice (count others : Nat) : (count + (others + count)).bodd = others.bodd := by
        rw [Nat.add_left_comm, Nat.bodd_add, Nat.bodd_add, Bool.xor_self, Bool.xor_false]
      simp only [List.cons_append, List.flatMap_cons, List.flatMap_append, List.flatMap_nil,
        List.append_nil, Action.cells, hCells, List.count_append, hTwice]
  · intro before rest x y rows
    refine after_congr ?_ ?_ ?_ _ _ _
    · rintro action hMem
      rw [List.mem_singleton.mp hMem]
      rfl
    · intro action hMem
      obtain ⟨place, hPlace, rfl⟩ := List.mem_mapIdx.mp hMem
      rfl
    · intro cell
      rw [cells_rows, List.flatMap_singleton]
      rfl

/-- A sprite of 33 rows covers its first pixel twice.  Drawn again at coordinates that wrap
around, it cancels out although another sprite was drawn in between. -/
theorem after_is_the_sum_of_its_draws_wrapped :
    let tall : List UInt8 := List.replicate 33 0x80
    let small : Action := .draw 3 3 [0x0F]
    (blank.after [.clear, .draw 70 5 tall]).pixel 6 5 = false ∧
      (blank.after [.clear, .draw 70 5 tall]).pixel 6 6 = true ∧
      blank.after [.draw 70 5 tall, small] = blank.after [small, .draw 70 5 tall] ∧
      blank.after [.draw 70 5 tall, small, .draw 6 37 tall] = blank.after [small] := by
  intro tall small
  obtain ⟨hPixels, hOrder, hTwice, -⟩ := after_is_the_sum_of_its_draws blank
  refine ⟨?_, ?_, ?_, ?_⟩
  · rw [hPixels]
    decide +kernel
  · rw [hPixels]
    decide +kernel
  · exact hOrder [] [.draw 70 5 tall, small] [small, .draw 70 5 tall] []
      (by simp [small, Action.isClear]) (.swap _ _ _)
  · exact hTwice [] [small] [] 70 5 6 37 tall (by simp [small, Action.isClear]) rfl rfl

end Screen
end ChipEight
