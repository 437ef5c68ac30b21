import ChipEight.Memory

/-!
# Ranges of the memory

Values that are written one after the other cover a range of addresses, which may wrap around
the end of the memory.  As long as there are not more values than bytes, no value overwrites
another one, so what is read afterwards is known for every address:

* `Memory.read_writeAll_of_inside` — inside the range it is the value that was written there;
* `Memory.read_writeAll_of_outside` — outside of it is what was there before;
* `Memory.readAll_writeAll`, `Memory.writeAll_readAll` — reading back what was written, and
  writing back what was read.
-/

namespace ChipEight
namespace Memory

/-- Writing leaves every place alone that none of the addresses wraps to. -/
theorem read_writeAll_of_outside {memory : Memory} {start address : Nat} {values : List UInt8}
    (hOutside : ∀ offset < values.length, (start + offset) % 4096 ≠ address % 4096) :
    (memory.writeAll start values).read address = memory.read address := by
  induction values generalizing memory start with
  | nil => rfl
  | cons value values ih =>
    have hFirst : start % 4096 ≠ address % 4096 := hOutside 0 (Nat.succ_pos _)
    have hLater : ∀ offset < values.length, (start + 1 + offset) % 4096 ≠ address % 4096 := by
      intro offset hOffset
      rw [Nat.add_assoc, Nat.add_comm 1 offset]
      exact hOutside (offset + 1) (Nat.succ_lt_succ hOffset)
    rw [writeAll, ih hLater, read_write, if_neg hFirst]

/-- The value that was written to a place is read there, since the values after it do not
reach that place again. -/
theorem read_writeAll_of_inside {memory : Memory} {start offset : Nat} {values : List UInt8}
    (hSize : values.length ≤ 4096) (hOffset : offset < values.length) :
    (memory.writeAll start values).read (start + offset) = values[offset] := by
  induction values generalizing memory start offset with
  | nil => exact absurd hOffset (Nat.not_lt_zero _)
  | cons value values ih =>
    rw [List.length_cons] at hSize
    cases offset with
    | zero =>
      have hLater : ∀ later < values.length, (start + 1 + later) % 4096 ≠ start % 4096 := by
        intro later hLater
        omega
      show ((memory.write start value).writeAll (start + 1) values).read start = value
      rw [read_writeAll_of_outside hLater, read_write, if_pos rfl]
    | succ offset =>
      have hPlace : start + (offset + 1) = start + 1 + offset := by omega
      rw [writeAll, hPlace, List.getElem_cons_succ]
      exact ih (Nat.le_of_succ_le hSize) (Nat.lt_of_succ_lt_succ hOffset)

/-! ## Whole ranges -/

@[simp] theorem length_readAll (memory : Memory) (start count : Nat) :
    (memory.readAll start count).length = count := by
  rw [readAll, List.length_map, List.length_range]

theorem getElem?_readAll (memory : Memory) (start : Nat) {count offset : Nat}
    (hOffset : offset < count) :
    (memory.readAll start count)[offset]? = some (memory.read (start + offset)) := by
  rw [readAll, List.getElem?_map, List.getElem?_range hOffset, Option.map_some]

/-- What was written to a range is read there, if the range fits into the memory. -/
theorem readAll_writeAll (memory : Memory) (start : Nat) {values : List UInt8}
    (hSize : values.length ≤ 4096) :
    (memory.writeAll start values).readAll start values.length = values := by
  refine List.ext_getElem (length_readAll _ _ _) fun offset hLeft hRight => ?_
  rw [← Option.some_inj, ← List.getElem?_eq_getElem, getElem?_readAll _ _ hRight,
    read_writeAll_of_inside hSize hRight]

@[simp] theorem write_read (memory : Memory) (address : Nat) :
    memory.write address (memory.read address) = memory := by
  obtain ⟨bytes⟩ := memory
  simp only [write, read, Fin.getElem_fin, Vector.set_getElem_self]

/-- Writing back what was read from a range changes nothing, also where the range is longer than
the memory and goes round it. -/
@[simp] theorem writeAll_readAll (memory : Memory) (start count : Nat) :
    memory.writeAll start (memory.readAll start count) = memory := by
  induction count generalizing start with
  | zero => rfl
  | succ count ih =>
    have hFirst : memory.readAll start (count + 1) =
        memory.read start :: memory.readAll (start + 1) count := by
      rw [readAll, List.range_succ_eq_map, List.map_cons, List.map_map]
      refine congrArg (memory.read start :: ·) (List.map_congr_left fun offset _ => ?_)
      exact congrArg memory.read (by simp only [Nat.succ_eq_add_one]; omega)
    rw [hFirst, writeAll, write_read, ih]

end Memory
end ChipEight
