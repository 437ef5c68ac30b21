import Mathlib.Data.List.Chain
import ChipEight.Host.Session
import ChipEight.Proofs.Running

/-!
# Frames and runs of frames taken apart

A frame reads the keys and then runs its cycles, of which each starts where the one
before it ended.  A run of frames does nothing but its frames, apart from the silence at
its end.  So what is shown about a cycle carries over to a frame, and what is shown about
a frame carries over to a run of them.

* `Machine.cycleStarts`, `Machine.cycles_eq_counted` — the states from which the cycles of a
  frame start, and that the frame does nothing but count their steps;
* `Machine.cycleStarts_split` — a cycle and the ones after it are the cycles of a frame
  that starts there, and what the steps before it preserve holds there;
* `Machine.holds_of_mem_cycleStarts` — what every step preserves holds in all of them;
* `Session.frame_cases` — the two ways a frame can end;
* `Session.FrameSteps`, `Session.frameSteps_cycleStarts` — the frame of a session as the steps
  from these states;
* `Session.after_run` — a run of frames is its frames one after the other, and then a run
  without frames, which only silences the tone.
-/

namespace ChipEight
namespace Machine

/-- The cycle from this state is the last one of its frame: the machine waits for a key
after it, or it has met a fault. -/
def CycleEnds (machine : Machine) : Prop :=
  machine.step.1 = .ok .blocked ∨ ∃ fault, machine.step.1 = .error fault

/-- The states from which the cycles of a frame start, in order. -/
def cycleStarts : Nat → Machine → List Machine
  | 0, _ => []
  | limit + 1, machine =>
    machine ::
      match machine.step with
      | (.error _, _) => []
      | (.ok .blocked, _) => []
      | (.ok _, next) => cycleStarts limit next

/-- A frame goes on after every other outcome. -/
theorem cycleEnds_or (machine : Machine) :
    machine.CycleEnds ∨ ∃ outcome, outcome ≠ .blocked ∧ machine.step.1 = .ok outcome := by
  cases hResult : machine.step.1 with
  | error fault => exact Or.inl (Or.inr ⟨fault, hResult⟩)
  | ok outcome =>
    by_cases hBlocked : outcome = .blocked
    · subst hBlocked
      exact Or.inl (Or.inl hResult)
    · exact Or.inr ⟨outcome, hBlocked, rfl⟩

/-! ## One cycle of a frame -/

variable {limit : Nat} {report : FrameReport} {machine : Machine}

theorem step_of_fst {result : Except Fault Outcome} (hResult : machine.step.1 = result) :
    machine.step = (result, machine.step.2) :=
  Prod.ext hResult rfl

theorem cycles_of_error {fault : Fault} (hResult : machine.step.1 = .error fault) :
    cycles (limit + 1) report machine = (.error fault, machine.step.2) := by
  rw [cycles, step_of_fst hResult]

theorem cycles_of_blocked (hResult : machine.step.1 = .ok .blocked) :
    cycles (limit + 1) report machine = (.ok (report.count .blocked), machine.step.2) := by
  rw [cycles, step_of_fst hResult]

theorem cycles_of_ok {outcome : Outcome} (hGoesOn : outcome ≠ .blocked)
    (hResult : machine.step.1 = .ok outcome) :
    cycles (limit + 1) report machine =
      cycles limit (report.count outcome) machine.step.2 := by
  rw [cycles, step_of_fst hResult]
  cases outcome with
  | blocked => exact absurd rfl hGoesOn
  | advanced | unknown => rfl

theorem cycles_snd_of_cycleEnds (hEnds : machine.CycleEnds) :
    (cycles (limit + 1) report machine).2 = machine.step.2 := by
  rcases hEnds with hBlocked | ⟨fault, hFault⟩
  · rw [cycles_of_blocked hBlocked]
  · rw [cycles_of_error hFault]

theorem cycleStarts_of_cycleEnds (hEnds : machine.CycleEnds) :
    cycleStarts (limit + 1) machine = [machine] := by
  rcases hEnds with hBlocked | ⟨fault, hFault⟩
  · rw [cycleStarts, step_of_fst hBlocked]
  · rw [cycleStarts, step_of_fst hFault]

theorem cycleStarts_of_ok {outcome : Outcome} (hGoesOn : outcome ≠ .blocked)
    (hResult : machine.step.1 = .ok outcome) :
    cycleStarts (limit + 1) machine = machine :: cycleStarts limit machine.step.2 := by
  rw [cycleStarts, step_of_fst hResult]
  cases outcome with
  | blocked => exact absurd rfl hGoesOn
  | advanced | unknown => rfl

/-- A report with the steps from some states counted, or the fault that one of them met. -/
def counted (report : FrameReport) (starts : List Machine) : Except Fault FrameReport :=
  starts.foldl (fun result start => result.bind fun report => start.step.1.map report.count)
    (.ok report)

theorem counted_cons {outcome : Outcome} (hResult : machine.step.1 = .ok outcome)
    (report : FrameReport) (starts : List Machine) :
    counted report (machine :: starts) = counted (report.count outcome) starts := by
  rw [counted, List.foldl_cons, hResult]
  rfl

/-- These are the cycles of a frame: it counts what their steps did, and ends where the last
one of them leads. -/
theorem cycles_eq_counted (limit : Nat) (report : FrameReport) (machine : Machine) :
    cycles limit report machine =
      (counted report (cycleStarts limit machine),
        ((cycleStarts limit machine).getLast?.map fun last => last.step.2).getD machine) := by
  induction limit generalizing report machine with
  | zero => rfl
  | succ limit ih =>
    rcases machine.cycleEnds_or with (hBlocked | ⟨fault, hFault⟩) | ⟨outcome, hGoesOn, hResult⟩
    · rw [cycles_of_blocked hBlocked, cycleStarts_of_cycleEnds (Or.inl hBlocked),
        counted_cons hBlocked]
      rfl
    · rw [cycles_of_error hFault, cycleStarts_of_cycleEnds (Or.inr ⟨fault, hFault⟩), counted,
        List.foldl_cons, hFault]
      rfl
    · rw [cycles_of_ok hGoesOn hResult, cycleStarts_of_ok hGoesOn hResult, counted_cons hResult,
        ih, List.getLast?_cons]
      cases (cycleStarts limit machine.step.2).getLast? <;> rfl

/-! ## The cycles of a frame in order -/

/-- The first cycle starts where the frame does, and the others are the cycles of a
frame from the next state on. -/
theorem cycleStarts_uncons {first : Machine} {others : List Machine}
    (hStarts : cycleStarts limit machine = first :: others) :
    first = machine ∧ ∃ rest, others = cycleStarts rest machine.step.2 := by
  cases limit with
  | zero => contradiction
  | succ limit =>
    rcases machine.cycleEnds_or with hEnds | ⟨outcome, hGoesOn, hResult⟩
    · rw [cycleStarts_of_cycleEnds hEnds] at hStarts
      obtain ⟨rfl, rfl⟩ := List.cons.inj hStarts
      exact ⟨rfl, 0, rfl⟩
    · rw [cycleStarts_of_ok hGoesOn hResult] at hStarts
      obtain ⟨rfl, rfl⟩ := List.cons.inj hStarts
      exact ⟨rfl, limit, rfl⟩

/-- Each cycle starts where the one before it ended. -/
theorem isChain_cycleStarts (limit : Nat) (machine : Machine) :
    (cycleStarts limit machine).IsChain fun start next => next = start.step.2 := by
  induction limit generalizing machine with
  | zero => exact .nil
  | succ limit ih =>
    rcases machine.cycleEnds_or with hEnds | ⟨outcome, hGoesOn, hResult⟩
    · rw [cycleStarts_of_cycleEnds hEnds]
      exact .singleton machine
    · rw [cycleStarts_of_ok hGoesOn hResult, List.isChain_cons]
      refine ⟨fun next hNext => ?_, ih machine.step.2⟩
      obtain ⟨others, hStarts⟩ := List.head?_eq_some_iff.mp hNext
      exact (cycleStarts_uncons hStarts).1

/-- A cycle in the middle of a frame and the ones after it are the cycles of a frame that
starts there, and what the steps before it preserve holds there. -/
theorem cycleStarts_split {P : Machine → Prop} {current : Machine}
    {earlier later : List Machine}
    (hStarts : cycleStarts limit machine = earlier ++ current :: later)
    (hStep : ∀ start ∈ earlier, P start → P start.step.2) (hStart : P machine) :
    P current ∧ ∃ rest, later = cycleStarts rest current.step.2 := by
  induction earlier generalizing limit machine with
  | nil =>
    obtain ⟨rfl, hLater⟩ := cycleStarts_uncons hStarts
    exact ⟨hStart, hLater⟩
  | cons first earlier ih =>
    obtain ⟨rfl, rest, hOthers⟩ := cycleStarts_uncons hStarts
    have hNext : P first.step.2 := hStep first List.mem_cons_self hStart
    exact ih hOthers.symm (fun start hMem => hStep start (List.mem_cons_of_mem _ hMem)) hNext

/-- What every step preserves holds at the start of every cycle. -/
theorem holds_of_mem_cycleStarts {P : Machine → Prop}
    (hStep : ∀ start, P start → P start.step.2) (hStart : P machine)
    {current : Machine} (hMem : current ∈ cycleStarts limit machine) : P current := by
  obtain ⟨earlier, later, hStarts⟩ := List.append_of_mem hMem
  exact (cycleStarts_split hStarts (fun start _ => hStep start) hStart).1

end Machine

namespace Session

/-- A frame either gets through its cycles and ends with the tick, the screen and the
tone, or it ends with the fault that a cycle met. -/
theorem frame_cases (session : Session) (reading : Levels) :
    (∃ report machine,
      (session.machine.setKeys reading).cycles session.pace.cyclesPerFrame .empty =
        (.ok report, machine) ∧
      session.frame reading = session.endFrame report machine) ∨
    ∃ fault machine,
      (session.machine.setKeys reading).cycles session.pace.cyclesPerFrame .empty =
        (.error fault, machine) ∧
      session.frame reading = ⟨.error fault, { session with machine := machine }, []⟩ := by
  match hCycles : (session.machine.setKeys reading).cycles session.pace.cyclesPerFrame .empty with
  | (.ok report, machine) =>
    exact Or.inl ⟨report, machine, rfl, by simp only [frame, hCycles]⟩
  | (.error fault, machine) =>
    exact Or.inr ⟨fault, machine, rfl, by simp only [frame, hCycles]⟩

/-- A frame is the steps from some states in turn: the first one is the machine that has just
been told of the keys, and each of the others is where the step before it led.  The frame counts
the steps and reports the fault if one met a fault.  It ends where the last step led, after a
tick and with the mark of a changed screen taken away if there was no fault. -/
structure FrameSteps (session : Session) (reading : Levels) (starts : List Machine) : Prop where
  first : starts.head? = some (session.machine.setKeys reading)
  chain : starts.IsChain fun start next => next = start.step.2
  result : (session.frame reading).result = Machine.counted .empty starts
  last : ∃ last, starts.getLast? = some last ∧
    (session.frame reading).session.machine =
      match (session.frame reading).result with
      | .ok _ => last.step.2.tick.takeRedraw.2
      | .error _ => last.step.2

theorem frameSteps_cycleStarts (session : Session) (reading : Levels) :
    session.FrameSteps reading
      ((session.machine.setKeys reading).cycleStarts session.pace.cyclesPerFrame) := by
  obtain ⟨limit, hLimit⟩ : ∃ limit, session.pace.cyclesPerFrame = limit + 1 :=
    Nat.exists_eq_add_one.mpr session.pace.cyclesPerFrame_pos
  have hCycles := (session.machine.setKeys reading).cycles_eq_counted
    session.pace.cyclesPerFrame .empty
  obtain ⟨last, hLast⟩ : ∃ last,
      ((session.machine.setKeys reading).cycleStarts session.pace.cyclesPerFrame).getLast? =
        some last := by
    rw [hLimit]
    exact ⟨_, List.getLast?_cons⟩
  rw [hLast, Option.map_some, Option.getD_some] at hCycles
  refine ⟨by rw [hLimit]; rfl, Machine.isChain_cycleStarts _ _, ?_, last, hLast, ?_⟩
  · rw [frame, hCycles]
    generalize Machine.counted _ _ = result
    cases result <;> rfl
  · rw [frame, hCycles]
    generalize Machine.counted _ _ = result
    cases result <;> rfl

/-- A sequence of actions is performed by performing its parts one after the other. -/
theorem after_append (session : Session) (first second : List Action) :
    session.after (first ++ second) =
      ((session.after first).1 ++ ((session.after first).2.after second).1,
        ((session.after first).2.after second).2) := by
  induction first generalizing session with
  | nil => rfl
  | cons action actions ih => simp only [List.cons_append, after, ih, List.append_assoc]

/-- The first frames of a run as actions of their own. -/
def frameActions (readings : Nat → Levels) (count : Nat) : List Action :=
  (List.range count).map fun frame => .frame (readings frame)

theorem frameActions_succ (readings : Nat → Levels) (count : Nat) :
    frameActions readings (count + 1) =
      .frame (readings 0) :: frameActions (fun later => readings (later + 1)) count := by
  simp only [frameActions, List.range_succ_eq_map, List.map_cons, List.map_map]
  rfl

/-- A run does what its frames do one after the other. -/
theorem after_frameActions (session : Session) (readings : Nat → Levels) (limit : Nat) :
    session.after (frameActions readings (session.frames readings limit).frames) =
      ((session.frames readings limit).events, (session.frames readings limit).session) := by
  induction limit generalizing session readings with
  | zero => rfl
  | succ limit ih =>
    cases hFirst : (session.frame (readings 0)).result with
    | error fault =>
      simp only [frames, hFirst, frameActions_succ]
      simp [frameActions, after, act]
    | ok report =>
      simp only [frames, hFirst, frameActions_succ, after, act, ih]

/-- A run of frames is its frames one after the other, and then a run without frames. -/
theorem after_run (session : Session) (readings : Nat → Levels) (limit : Nat) :
    session.after [.run readings limit] =
      session.after
        (frameActions readings (session.run readings limit).frames ++ [.run readings 0]) := by
  have hFrames := session.after_frameActions readings limit
  rw [after_append]
  simp only [after, act, run, List.append_nil] at hFrames ⊢
  rw [hFrames]
  rfl

end Session
end ChipEight
