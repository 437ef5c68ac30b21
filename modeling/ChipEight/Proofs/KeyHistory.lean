import Mathlib.Data.List.DropRight
import Mathlib.Order.Bounds.Defs
import ChipEight.Proofs.KeyReports

/-!
# The keypad as a function of its history

What a keypad knows is a function of everything that was ever reported to it.  Each key is at
the level that was written to it last.  The latch looks back to the last action that settled
it: a report of all keys, or an action that takes the latched press away.  The latest press
since then is latched, and if there was none, what the settling action left behind.

* `Keypad.lastLevel`, `Keypad.levels_after` — the levels as a function of the history;
* `Keypad.presses`, `Keypad.latch_after` — the latch, from the presses since it was settled;
* `Keypad.after_follows_history` — the whole keypad.
-/

namespace ChipEight
namespace Keypad

/-! ## The levels -/

namespace Action

/-- The level that an action writes to a key, if it reports that key. -/
def written (key : Key) : Action → Option Bool
  | .set number down => if number = key.val then some down else none
  | .setAll levels => some (levels.get key)
  | .isPressed _ | .takeLatch | .clearLatch => none

/-- The actions that settle what is latched, whatever was latched before. -/
def settlesLatch : Action → Bool
  | .setAll _ | .takeLatch | .clearLatch => true
  | .set _ _ | .isPressed _ => false

end Action

/-- The level that was written to a key last.  Before the first report all keys are up. -/
def lastLevel (history : List Action) (key : Key) : Bool :=
  (history.filterMap (Action.written key)).getLast?.getD false

theorem after_append (pad : Keypad) (first second : List Action) :
    pad.after (first ++ second) = (pad.after first).after second :=
  List.foldl_append

theorem levels_perform (pad : Keypad) (action : Action) (key : Key) :
    (pad.perform action).2.levels.get key = (action.written key).getD (pad.levels.get key) := by
  cases action with
  | set number down =>
    show (pad.set number down).levels.get key = _
    rw [levels_set, Action.written]
    split <;> rfl
  | setAll levels => exact congrArg (Vector.get · key) (pad.levels_setAll levels)
  | isPressed | takeLatch | clearLatch => rfl

/-- Every key is at the level that was written to it last. -/
theorem levels_after (history : List Action) (key : Key) :
    (fresh.after history).levels.get key = lastLevel history key := by
  induction history using List.reverseRecOn with
  | nil =>
    show Levels.released.get key = false
    simp [Levels.released, Vector.get]
  | append_singleton history action ih =>
    rw [after_append]
    show ((fresh.after history).perform action).2.levels.get key = _
    rw [levels_perform, ih, lastLevel, lastLevel, List.filterMap_append, List.getLast?_append]
    cases hWritten : action.written key <;> simp [hWritten]

/-! ## Single reports -/

/-- The key that a single report brings from up to down after a history. -/
def press? (history : List Action) : Action → Option Key
  | .set number down =>
    if hKey : number < 16 then
      if down && !lastLevel history ⟨number, hKey⟩ then some ⟨number, hKey⟩ else none
    else none
  | _ => none

/-- The keys that single reports bring from up to down while the actions follow a history, in
order. -/
def presses (history : List Action) : List Action → List Key
  | [] => []
  | action :: later => (press? history action).toList ++ presses (history ++ [action]) later

/-- An action that does not settle the latch leaves it as it is, unless it is a press. -/
theorem latch_concat {history : List Action} {action : Action}
    (hAction : action.settlesLatch = false) :
    (fresh.after (history ++ [action])).latch =
      (press? history action).or (fresh.after history).latch := by
  rw [after_append]
  cases action with
  | set number down =>
    show ((fresh.after history).set number down).latch = _
    by_cases hKey : number < 16
    · rw [latch_set_key _ ⟨number, hKey⟩, levels_after, press?, dif_pos hKey]
      split <;> rfl
    · rw [set_of_le (Nat.not_lt.mp hKey), press?, dif_neg hKey, Option.none_or]
  | isPressed number => rfl
  | setAll | takeLatch | clearLatch => contradiction

/-- Over several of them the latest press is latched. -/
theorem latch_append {history recent : List Action}
    (hRecent : ∀ action ∈ recent, action.settlesLatch = false) :
    (fresh.after (history ++ recent)).latch =
      (presses history recent).getLast?.or (fresh.after history).latch := by
  induction recent generalizing history with
  | nil => rw [List.append_nil, presses, List.getLast?_nil, Option.none_or]
  | cons action later ih =>
    obtain ⟨hAction, hLater⟩ := List.forall_mem_cons.mp hRecent
    rw [List.append_cons, ih hLater, latch_concat hAction, ← Option.or_assoc, presses,
      List.getLast?_append]
    cases press? history action <;> rfl

/-! ## The latch -/

/-- The history up to the last action that settled the latch. -/
def untilSettled (history : List Action) : List Action :=
  history.rdropWhile fun action => !action.settlesLatch

/-- The actions since then. -/
def sinceSettled (history : List Action) : List Action :=
  history.rtakeWhile fun action => !action.settlesLatch

/-- The latch holds the latest press since it was settled, or else what was left then. -/
theorem latch_after (history : List Action) :
    (fresh.after history).latch =
      (presses (untilSettled history) (sinceSettled history)).getLast?.or
        (fresh.after (untilSettled history)).latch := by
  have hSplit : untilSettled history ++ sinceSettled history = history :=
    List.rdropWhile_append_rtakeWhile
  have hRecent : ∀ action ∈ sinceSettled history, action.settlesLatch = false := by
    intro action hMem
    simpa using List.mem_rtakeWhile_imp hMem
  rw [← latch_append hRecent, hSplit]

theorem settlesLatch_of_untilSettled {history before : List Action} {action : Action}
    (hLast : untilSettled history = before ++ [action]) : action.settlesLatch = true := by
  have hNonempty : untilSettled history ≠ [] := by simp [hLast]
  have hKept := List.rdropWhile_last_not _ _ hNonempty
  rw [untilSettled] at hLast
  simpa [hLast] using hKept

/-- Only a report of all keys leaves something latched. -/
theorem latch_untilSettled {history : List Action}
    (hOther : ∀ before levels, untilSettled history ≠ before ++ [.setAll levels]) :
    (fresh.after (untilSettled history)).latch = none := by
  rcases (untilSettled history).eq_nil_or_concat with hStart | ⟨before, action, hLast⟩
  · rw [hStart]
    rfl
  · rw [List.concat_eq_append] at hLast
    have hSettles := settlesLatch_of_untilSettled hLast
    rw [hLast, after_append]
    cases action with
    | setAll levels => exact absurd hLast (hOther before levels)
    | takeLatch | clearLatch => rfl
    | set | isPressed => contradiction

/-- A keypad follows its history.  Each key is at the level that was written to it last, and up
if none was.  Numbers that name no key write nothing, and a question about a number is answered
for the key that it counts as.  What is latched is handed out to whoever takes it, and then
forgotten.  The latch holds the latest press since it was settled.  If there was none and a report
of all keys settled it, it holds the lowest key that is down in the report and was up before, if
there is one; and otherwise it is empty. -/
theorem after_follows_history (history : List Action) :
    (∀ key, (fresh.after history).levels.get key = lastLevel history key) ∧
    (∀ number down, 16 ≤ number →
      fresh.after (history ++ [.set number down]) = fresh.after history) ∧
    (∀ number, (fresh.after history).perform (.isPressed number) =
      (.level (lastLevel history ⟨number % 16, Nat.mod_lt _ (by decide)⟩),
        fresh.after history)) ∧
    (fresh.after history).perform .takeLatch =
      (.taken (fresh.after history).latch, { fresh.after history with latch := none }) ∧
    let settled := untilSettled history
    let recent := presses settled (sinceSettled history)
    (∀ key, recent.getLast? = some key → (fresh.after history).latch = some key) ∧
      (recent = [] →
        (∀ before levels, settled = before ++ [.setAll levels] → ∀ key,
          (fresh.after history).latch = some key ↔
            IsLeast {other | levels.get other = true ∧ lastLevel before other = false} key) ∧
        ((∀ before levels, settled ≠ before ++ [.setAll levels]) →
          (fresh.after history).latch = none)) := by
  refine ⟨levels_after history, ?_, ?_, rfl, ?_, ?_⟩
  · intro number down hNumber
    rw [after_append]
    exact set_of_le hNumber
  · intro number
    rw [← levels_after]
    rfl
  · intro key hLatest
    rw [latch_after, hLatest, Option.some_or]
  · intro hNone
    rw [latch_after, hNone, List.getLast?_nil, Option.none_or]
    refine ⟨fun before levels hSettled key => ?_, latch_untilSettled⟩
    have hReport : fresh.after (before ++ [.setAll levels]) = (fresh.after before).setAll levels :=
      after_append fresh before [.setAll levels]
    rw [hSettled, hReport, latch_setAll]
    simp only [levels_after]
    rfl

/-- A report of keys 2, 4 and 9, of which 4 was down before, latches key 2, also when key 9 is
reported again, key 2 is released and a number without a key is reported.  Then keys 3 and 5
are pressed, and the press of 5 is taken away. -/
theorem after_follows_history_reported :
    let levels : Levels := Vector.ofFn fun key => key.val = 2 || key.val = 4 || key.val = 9
    let history : List Action :=
      [.set 4 true, .set 20 true, .setAll levels, .set 9 true, .isPressed 18, .set 2 false]
    let pressing : List Action := history ++ [.set 3 true, .set 5 true, .set 5 false]
    (fresh.after history).latch = some 2 ∧ (fresh.after history).levels.get 2 = false ∧
      fresh.after (history ++ [.set 16 true]) = fresh.after history ∧
      ((fresh.after pressing).perform .takeLatch).1 = .taken (some 5) ∧
      (fresh.after (pressing ++ [.takeLatch])).latch = none := by
  intro levels history pressing
  obtain ⟨hLevels, hNoKey, -, -, -, hSettled⟩ := after_follows_history history
  obtain ⟨-, -, -, hTaken, hLatest, -⟩ := after_follows_history pressing
  obtain ⟨-, -, -, -, -, hEmpty⟩ := after_follows_history (pressing ++ [.takeLatch])
  refine ⟨?_, (hLevels 2).trans (by decide), hNoKey 16 true (by decide), ?_, (hEmpty rfl).2 ?_⟩
  · have hLowest : ∀ other : Key,
        levels.get other = true ∧ lastLevel [.set 4 true, .set 20 true] other = false →
          2 ≤ other := by
      decide
    have hReport := (hSettled (by decide)).1 [.set 4 true, .set 20 true] levels rfl
    exact (hReport 2).mpr ⟨⟨by decide, by decide⟩, hLowest⟩
  · rw [hTaken, hLatest 5 (by decide)]
  · intro before others hSame
    have hLast := congrArg List.getLast? (show pressing ++ [.takeLatch] = _ from hSame)
    rw [List.getLast?_concat, List.getLast?_concat] at hLast
    cases hLast

end Keypad
end ChipEight
