import Mathlib.Control.Monad.Basic
import ChipEight.Proofs.Frames
import ChipEight.Proofs.Presses

/-!
# The early end of a frame

A frame is over where the machine begins to wait for a key, although some of its cycles may
be left.  Nobody can tell that they are missing.  A machine that has blocked does nothing
until a press is latched, and no key is reported before the next frame.  So a frame leaves
the machine as it would be after all of the cycles, and its report is what they did.

* `Machine.plainCycles` — the cycles of a frame without its early end;
* `Machine.step_of_blocked` — a machine that has blocked does nothing in a further cycle;
* `Machine.cycles_eq_plainCycles` — a frame does what the plain cycles do;
* `FrameReport.tally` — the report, as a count of their outcomes;
* `Session.frame_ends_early_unseen` — the same of whole frames.
-/

namespace ChipEight

namespace Outcome

/-- The cycle executed an opcode or passed one over. -/
def counts : Outcome → Bool
  | .advanced | .unknown _ => true
  | .blocked => false

/-- The cycle passed an opcode over. -/
def isUnknown : Outcome → Bool
  | .unknown _ => true
  | .advanced | .blocked => false

theorem counts_iff {outcome : Outcome} : outcome.counts = true ↔ outcome ≠ .blocked := by
  cases outcome <;> simp [counts]

end Outcome

namespace FrameReport

/-- The report of a frame whose cycles had these outcomes. -/
def tally (outcomes : List Outcome) : FrameReport where
  cycles := outcomes.countP Outcome.counts
  blocked := decide (.blocked ∈ outcomes)
  unknown := outcomes.countP Outcome.isUnknown

/-- Counting the outcomes one after the other adds them up. -/
theorem foldl_count (report : FrameReport) (outcomes : List Outcome) :
    outcomes.foldl count report =
      ⟨report.cycles + (tally outcomes).cycles, report.blocked || (tally outcomes).blocked,
        report.unknown + (tally outcomes).unknown⟩ := by
  induction outcomes generalizing report with
  | nil => simp [tally]
  | cons outcome outcomes ih =>
    rw [List.foldl_cons, ih]
    cases outcome <;>
      simp [tally, count, Outcome.counts, Outcome.isUnknown, List.countP_cons] <;> omega

theorem foldl_count_empty (outcomes : List Outcome) :
    outcomes.foldl count .empty = tally outcomes := by
  simp [foldl_count, empty]

/-- It makes no difference how often the machine blocked. -/
theorem foldl_count_blocked (report : FrameReport) (limit : Nat) :
    (List.replicate (limit + 1) Outcome.blocked).foldl count report = report.count .blocked := by
  induction limit with
  | zero => rfl
  | succ limit ih =>
    rw [List.replicate_succ', List.foldl_append, ih]
    rfl

/-- Where no cycle blocked, all of them were counted. -/
theorem cycles_tally {outcomes : List Outcome} (hGoesOn : (tally outcomes).blocked = false) :
    (tally outcomes).cycles = outcomes.length := by
  have hNone : .blocked ∉ outcomes := of_decide_eq_false hGoesOn
  refine List.countP_eq_length.mpr fun outcome hMem => Outcome.counts_iff.mpr ?_
  rintro rfl
  exact hNone hMem

theorem cycles_tally_lt {outcomes : List Outcome} (hBlocked : (tally outcomes).blocked = true) :
    (tally outcomes).cycles < outcomes.length := by
  have hMem : .blocked ∈ outcomes := of_decide_eq_true hBlocked
  refine Nat.lt_of_le_of_ne List.countP_le_length fun hAll => ?_
  exact Outcome.counts_iff.mp (List.countP_eq_length.mp hAll .blocked hMem) rfl

end FrameReport

namespace Machine

/-- Runs a number of cycles, through a key wait as well.  Only a fault ends them early. -/
def plainCycles : Nat → Machine → Except Fault (List Outcome) × Machine
  | 0, machine => (.ok [], machine)
  | limit + 1, machine =>
    match machine.step with
    | (.error fault, halted) => (.error fault, halted)
    | (.ok outcome, next) =>
      let rest := plainCycles limit next
      (rest.1.map (outcome :: ·), rest.2)

variable {limit : Nat} {machine : Machine}

/-! ## After the machine has blocked -/

theorem fault_of_step_ok {outcome : Outcome} (hResult : machine.step.1 = .ok outcome) :
    machine.step.2.fault = none := by
  have hSteps := machine.steps_step
  rw [hResult] at hSteps
  generalize machine.step.2 = next at hSteps
  cases hSteps with
  | waiting hFault => exact hFault
  | resumed hFault => exact hFault
  | unknown hFetches => exact hFetches.fault
  | executed hFetches hDecode hEffect =>
    cases flow_of_effect hEffect with
    | onward hSame => exact hSame.fault.trans hFetches.fault
    | _ => exact hFetches.fault

/-- A machine that has blocked waits for a key, and nothing is latched. -/
theorem awaiting_of_blocked (hBlocked : machine.step.1 = .ok .blocked) :
    (∃ x, machine.step.2.awaiting = some x) ∧ machine.step.2.keypad.latch = none := by
  refine ⟨(blocked_iff_awaiting hBlocked).mp rfl, ?_⟩
  by_cases hAwaits : ∃ x, machine.AwaitsKey x
  · obtain ⟨x, hAwaits⟩ := hAwaits
    rw [keypad_of_awaitsKey hAwaits, Keypad.clearLatch]
  · exact absurd hBlocked (step_of_not_awaitsKey (not_exists.mp hAwaits)).1

/-- So it does nothing in a further cycle, and blocks again. -/
theorem step_of_blocked (hBlocked : machine.step.1 = .ok .blocked) :
    machine.step.2.step = (.ok .blocked, machine.step.2) := by
  obtain ⟨⟨x, hAwaiting⟩, hLatch⟩ := awaiting_of_blocked hBlocked
  exact step_of_steps (.waiting (fault_of_step_ok hBlocked) hAwaiting hLatch)

/-! ## The plain cycles -/

theorem plainCycles_of_error {fault : Fault} (hResult : machine.step.1 = .error fault) :
    plainCycles (limit + 1) machine = (.error fault, machine.step.2) := by
  rw [plainCycles, step_of_fst hResult]

theorem plainCycles_of_ok {outcome : Outcome} (hResult : machine.step.1 = .ok outcome) :
    plainCycles (limit + 1) machine =
      ((plainCycles limit machine.step.2).1.map (outcome :: ·),
        (plainCycles limit machine.step.2).2) := by
  rw [plainCycles, step_of_fst hResult]

/-- Once the machine has blocked, all cycles block and leave it as it is. -/
theorem plainCycles_of_blocked (hBlocked : machine.step.1 = .ok .blocked) :
    plainCycles (limit + 1) machine =
      (.ok (List.replicate (limit + 1) .blocked), machine.step.2) := by
  induction limit generalizing machine with
  | zero => rw [plainCycles_of_ok hBlocked, plainCycles]; rfl
  | succ limit ih =>
    have hAgain := step_of_blocked hBlocked
    rw [plainCycles_of_ok hBlocked, ih (congrArg Prod.fst hAgain), hAgain]
    rfl

/-- A frame does what the plain cycles do, and counts their outcomes. -/
theorem cycles_eq_plainCycles (limit : Nat) (report : FrameReport) (machine : Machine) :
    cycles limit report machine =
      ((plainCycles limit machine).1.map (List.foldl FrameReport.count report),
        (plainCycles limit machine).2) := by
  induction limit generalizing report machine with
  | zero => rfl
  | succ limit ih =>
    rcases machine.cycleEnds_or with (hBlocked | ⟨fault, hFault⟩) | ⟨outcome, hGoesOn, hResult⟩
    · rw [cycles_of_blocked hBlocked, plainCycles_of_blocked hBlocked, Except.map,
        FrameReport.foldl_count_blocked]
    · rw [cycles_of_error hFault, plainCycles_of_error hFault, Except.map]
    · rw [cycles_of_ok hGoesOn hResult, plainCycles_of_ok hResult, ih]
      cases (plainCycles limit machine.step.2).1 <;> rfl

/-- The first of the plain cycles is a step, and the others start where it ends. -/
theorem plainCycles_uncons {outcomes : List Outcome}
    (hPlain : (plainCycles (limit + 1) machine).1 = .ok outcomes) :
    ∃ outcome later, outcomes = outcome :: later ∧ machine.step.1 = .ok outcome ∧
      (plainCycles limit machine.step.2).1 = .ok later := by
  cases hResult : machine.step.1 with
  | error fault =>
    rw [plainCycles_of_error hResult] at hPlain
    contradiction
  | ok outcome =>
    rw [plainCycles_of_ok hResult] at hPlain
    cases hRest : (plainCycles limit machine.step.2).1 with
    | error fault =>
      rw [hRest] at hPlain
      contradiction
    | ok later =>
      rw [hRest] at hPlain
      cases hPlain
      exact ⟨outcome, later, rfl, rfl, rfl⟩

/-- If the plain cycles meet no fault, then none of them is left out. -/
theorem length_plainCycles {outcomes : List Outcome}
    (hPlain : (plainCycles limit machine).1 = .ok outcomes) : outcomes.length = limit := by
  induction limit generalizing machine outcomes with
  | zero =>
    cases hPlain
    rfl
  | succ limit ih =>
    obtain ⟨outcome, later, rfl, -, hRest⟩ := plainCycles_uncons hPlain
    rw [List.length_cons, ih hRest]

/-- If one of them blocks, then the machine waits for a key after the last one. -/
theorem awaiting_plainCycles {outcomes : List Outcome}
    (hPlain : (plainCycles limit machine).1 = .ok outcomes) (hMem : .blocked ∈ outcomes) :
    ∃ x, (plainCycles limit machine).2.awaiting = some x := by
  induction limit generalizing machine outcomes with
  | zero =>
    cases hPlain
    contradiction
  | succ limit ih =>
    obtain ⟨outcome, later, rfl, hResult, hRest⟩ := plainCycles_uncons hPlain
    rcases List.mem_cons.mp hMem with rfl | hLater
    · rw [plainCycles_of_blocked hResult]
      exact (awaiting_of_blocked hResult).1
    · rw [plainCycles_of_ok hResult]
      exact ih hRest hLater

end Machine

namespace Session

variable {session : Session} {reading : Levels}

/-- A frame whose plain cycles meet a fault ends with it. -/
theorem frame_of_plain_error {fault : Fault} {machine : Machine}
    (hPlain : (session.machine.setKeys reading).plainCycles session.pace.cyclesPerFrame =
      (.error fault, machine)) :
    session.frame reading = ⟨.error fault, { session with machine := machine }, []⟩ := by
  rw [frame, Machine.cycles_eq_plainCycles, hPlain, Except.map]

/-- Every other frame ends after all of its plain cycles, and reports what they did. -/
theorem frame_of_plain_ok {outcomes : List Outcome} {machine : Machine}
    (hPlain : (session.machine.setKeys reading).plainCycles session.pace.cyclesPerFrame =
      (.ok outcomes, machine)) :
    session.frame reading = session.endFrame (.tally outcomes) machine := by
  rw [frame, Machine.cycles_eq_plainCycles, hPlain, Except.map, FrameReport.foldl_count_empty]

/-- Nobody can tell that a frame ends early.  Beside it there are the plain cycles, of which
none is left out unless they meet a fault.  A frame fails exactly if they do, with the same
fault and the same machine.  Otherwise its machine is the one after all of them and after one
tick, with the mark of a changed screen taken away, and its report is exact: it counts the
cycles that did something and those among them that passed an opcode over, and says whether
one blocked.  If none did, the frame has counted all its cycles, and if one did, it has
counted fewer and the machine waits for a key. -/
theorem frame_ends_early_unseen (session : Session) (reading : Levels) :
    let limit := session.pace.cyclesPerFrame
    let plain := (session.machine.setKeys reading).plainCycles limit
    let frame := session.frame reading
    1 ≤ limit ∧
      (∀ fault, frame.result = .error fault ↔ plain.1 = .error fault) ∧
      (∀ fault, plain.1 = .error fault → frame.session.machine = plain.2) ∧
      ∀ outcomes, plain.1 = .ok outcomes →
        outcomes.length = limit ∧
          frame.session.machine = plain.2.tick.takeRedraw.2 ∧
          ∃ report, frame.result = .ok report ∧
            report.cycles = outcomes.countP Outcome.counts ∧
            report.unknown = outcomes.countP Outcome.isUnknown ∧
            (report.blocked = true ↔ .blocked ∈ outcomes) ∧
            (report.blocked = false → report.cycles = limit) ∧
            (report.blocked = true →
              report.cycles < limit ∧ ∃ x, frame.session.machine.awaiting = some x) := by
  intro limit plain frame
  refine ⟨session.pace.cyclesPerFrame_pos, ?_⟩
  cases hResult : plain.1 with
  | error fault =>
    have hFrame : frame = _ := frame_of_plain_error (Prod.ext hResult rfl)
    rw [hFrame]
    refine ⟨fun other => ?_, fun _ _ => rfl, nofun⟩
    rw [Except.error.injEq, Except.error.injEq]
  | ok outcomes =>
    have hFrame : frame = _ := frame_of_plain_ok (Prod.ext hResult rfl)
    have hLength : outcomes.length = limit := Machine.length_plainCycles hResult
    rw [hFrame]
    refine ⟨fun fault => iff_of_false nofun nofun, nofun, ?_⟩
    rintro _ ⟨⟩
    refine ⟨hLength, rfl, .tally outcomes, rfl, rfl, rfl, decide_eq_true_iff, ?_, ?_⟩
    · intro hGoesOn
      rw [FrameReport.cycles_tally hGoesOn, hLength]
    · intro hBlocked
      have hAwaiting := Machine.awaiting_plainCycles hResult (of_decide_eq_true hBlocked)
      exact ⟨hLength ▸ FrameReport.cycles_tally_lt hBlocked, hAwaiting⟩

/-- A frame of four cycles that sets a register, passes over a zero and then waits for a key,
and one that returns without a saved address. -/
theorem frame_ends_early_unseen_waiting :
    let loaded (bytes : List UInt8) : Machine :=
      ((Machine.fresh (Entropy.ofWords fun _ => 0)).act (.load bytes)).2
    let waiting := (start (loaded [0x60, 0x01, 0, 0, 0xF3, 0x0A]) ⟨4, 1⟩).frame Levels.released
    let failing := (start (loaded [0x00, 0xEE]) ⟨4, 1⟩).frame Levels.released
    (∃ report, waiting.result = .ok report ∧ report.cycles = 2 ∧ report.unknown = 1 ∧
      report.blocked = true ∧ ∃ x, waiting.session.machine.awaiting = some x) ∧
      failing.result = .error .stackEmpty := by
  intro loaded waiting failing
  obtain ⟨-, -, -, hOk⟩ := frame_ends_early_unseen
    (start (loaded [0x60, 0x01, 0, 0, 0xF3, 0x0A]) ⟨4, 1⟩) Levels.released
  obtain ⟨-, hError, -, -⟩ := frame_ends_early_unseen
    (start (loaded [0x00, 0xEE]) ⟨4, 1⟩) Levels.released
  constructor
  · obtain ⟨-, -, report, hReport, hCycles, hUnknown, hBlocked, -, hWaits⟩ :=
      hOk [.advanced, .unknown 0, .blocked, .blocked] (by decide +kernel)
    have hEnds : report.blocked = true := hBlocked.mpr (by decide)
    exact ⟨report, hReport, hCycles, hUnknown, hEnds, (hWaits hEnds).2⟩
  · exact (hError .stackEmpty).mpr (by decide +kernel)

end Session
end ChipEight
