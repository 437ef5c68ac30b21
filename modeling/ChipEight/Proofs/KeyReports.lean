import ChipEight.Keypad

/-!
# What a report does to the keypad

A report of one key sets its level, and latches the key if it goes down.  A report of all keys
is one such report after the other, from the highest key down to the lowest one, after the
latch was cleared.  Each of them overwrites what the ones before it latched, so that the lowest
key that goes down is latched in the end.

* `Keypad.levels_set`, `Keypad.latch_set` — a report of one key;
* `Keypad.levels_setEach`, `Keypad.latch_setEach` — reports of some keys in turn;
* `Keypad.setAll_eq` — a report of all keys leaves nothing behind but their levels and the
  lowest newly pressed key;
* `Keypad.latch_setAll` — which key that is.
-/

namespace ChipEight
namespace Keypad

/-! ## One key -/

@[simp] theorem levels_set (pad : Keypad) (number : Nat) (down : Bool) (key : Key) :
    (pad.set number down).levels.get key =
      if number = key.val then down else pad.levels.get key := by
  unfold set
  split
  · next hKey => exact Vector.getElem_set hKey key.isLt
  · next hKey =>
    have hOther : number ≠ key.val := fun hSame => hKey (hSame ▸ key.isLt)
    rw [if_neg hOther]

@[simp] theorem latch_set_key (pad : Keypad) (key : Key) (down : Bool) :
    (pad.set key.val down).latch =
      if down && !pad.levels.get key then some key else pad.latch := by
  rw [set, dif_pos key.isLt]
  rfl

/-- A report of one key latches it if it went down, and keeps what was latched otherwise. -/
theorem latch_set {pad : Keypad} {number : Nat} {down : Bool} {key : Key} :
    (pad.set number down).latch = some key ↔
      (number = key.val ∧ down = true ∧ pad.levels.get key = false) ∨
        ((∀ other : Key, ¬ (number = other.val ∧ down = true ∧ pad.levels.get other = false)) ∧
          pad.latch = some key) := by
  by_cases hKey : number < 16
  · obtain ⟨reported, rfl⟩ : ∃ reported : Key, reported.val = number := ⟨⟨number, hKey⟩, rfl⟩
    rw [latch_set_key]
    by_cases hPress : down = true ∧ pad.levels.get reported = false
    · have hLatched : (down && !pad.levels.get reported) = true := by simpa using hPress
      rw [if_pos hLatched, Option.some.injEq]
      constructor
      · rintro rfl
        exact Or.inl ⟨rfl, hPress⟩
      · rintro (⟨hSame, -⟩ | ⟨hNone, -⟩)
        · exact Fin.ext hSame
        · exact absurd ⟨rfl, hPress⟩ (hNone reported)
    · have hKept : ¬ (down && !pad.levels.get reported) = true := by simpa using hPress
      rw [if_neg hKept]
      constructor
      · intro hLatch
        refine Or.inr ⟨?_, hLatch⟩
        rintro other ⟨hSame, hOther⟩
        exact hPress (Fin.ext hSame ▸ hOther)
      · rintro (⟨hSame, hOther⟩ | ⟨-, hLatch⟩)
        · exact absurd (Fin.ext hSame ▸ hOther) hPress
        · exact hLatch
  · have hNone (other : Key) : number ≠ other.val := fun hSame => hKey (hSame ▸ other.isLt)
    simp [set_of_le (Nat.not_lt.mp hKey), hNone]

theorem clearLatch_set (pad : Keypad) (key : Key) (down : Bool) :
    (pad.set key.val down).clearLatch = ⟨pad.levels.set key.val down key.isLt, none⟩ := by
  rw [set, dif_pos key.isLt, clearLatch]

/-! ## Some keys in turn -/

/-- The keys that are reported are at their new levels, and the others where they were. -/
theorem levels_setEach (pad : Keypad) (levels : Levels) (keys : List Key) (key : Key) :
    (key ∈ keys → (pad.setEach levels keys).levels.get key = levels.get key) ∧
      (key ∉ keys → (pad.setEach levels keys).levels.get key = pad.levels.get key) := by
  induction keys with
  | nil => exact ⟨nofun, fun _ => rfl⟩
  | cons first keys ih =>
    rw [setEach, levels_set]
    by_cases hFirst : first = key
    · simp [hFirst]
    · have hNumber : first.val ≠ key.val := fun hSame => hFirst (Fin.ext hSame)
      simpa [hNumber, Ne.symm hFirst] using ih

/-- The first of the keys that goes down is reported last, so it is the one that is latched. -/
theorem latch_setEach (pad : Keypad) (levels : Levels) {keys : List Key} (hKeys : keys.Nodup) :
    (pad.setEach levels keys).latch =
      (keys.find? fun key => levels.get key && !pad.levels.get key).or pad.latch := by
  induction keys with
  | nil => rfl
  | cons first keys ih =>
    obtain ⟨hFirst, hLater⟩ := List.nodup_cons.mp hKeys
    rw [setEach, latch_set_key, (levels_setEach _ _ _ _).2 hFirst, ih hLater, List.find?_cons]
    cases levels.get first && !pad.levels.get first <;> rfl

/-! ## All keys -/

/-- The lowest key that is down in a report and was up before. -/
def newlyPressed? (pad : Keypad) (levels : Levels) : Option Key :=
  (List.finRange 16).find? fun key => levels.get key && !pad.levels.get key

/-- A report of all keys leaves nothing behind but their levels and the lowest newly pressed
key.  What was latched before is dropped. -/
theorem setAll_eq (pad : Keypad) (levels : Levels) :
    pad.setAll levels = ⟨levels, pad.newlyPressed? levels⟩ := by
  have hLevels : (pad.clearLatch.setEach levels (List.finRange 16)).levels = levels := by
    ext place hPlace
    have hLevel := pad.clearLatch.levels_setEach levels (List.finRange 16) ⟨place, hPlace⟩
    exact hLevel.1 (List.mem_finRange _)
  have hLatch : (pad.clearLatch.setEach levels (List.finRange 16)).latch =
      pad.newlyPressed? levels :=
    (pad.clearLatch.latch_setEach levels (List.nodup_finRange 16)).trans Option.or_none
  rw [setAll, ← hLatch]
  exact congrArg (Keypad.mk · _) hLevels

@[simp] theorem levels_setAll (pad : Keypad) (levels : Levels) :
    (pad.setAll levels).levels = levels := by
  rw [setAll_eq]

/-- A report of all keys latches the lowest key that went down. -/
theorem latch_setAll {pad : Keypad} {levels : Levels} {key : Key} :
    (pad.setAll levels).latch = some key ↔
      (levels.get key = true ∧ pad.levels.get key = false) ∧
        ∀ other, levels.get other = true ∧ pad.levels.get other = false → key ≤ other := by
  have hDown (other : Key) : (levels.get other && !pad.levels.get other) = true ↔
      levels.get other = true ∧ pad.levels.get other = false := by
    rw [Bool.and_eq_true, Bool.not_eq_true']
  rw [setAll_eq, newlyPressed?, List.find?_eq_some_iff_getElem, hDown]
  refine and_congr_right fun _ => ?_
  constructor
  · rintro ⟨place, hPlace, rfl, hLower⟩ other hOther
    rw [List.length_finRange] at hPlace
    have hLe : place ≤ other.val := by
      refine Nat.le_of_not_lt fun hLt => ?_
      have hUp := hLower other.val hLt
      rw [List.getElem_finRange, Bool.not_eq_true', ← Bool.not_eq_true] at hUp
      exact hUp ((hDown other).mpr hOther)
    simpa [Fin.le_def] using hLe
  · intro hLowest
    refine ⟨key.val, by simp, by simp, fun place hLt => ?_⟩
    have hPlace : place < 16 := Nat.lt_trans hLt key.isLt
    have hUp := mt (hLowest ⟨place, hPlace⟩) (Nat.not_le.mpr hLt)
    rw [← hDown, Bool.not_eq_true] at hUp
    rw [List.getElem_finRange, Bool.not_eq_true']
    exact hUp

end Keypad
end ChipEight
