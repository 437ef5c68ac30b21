import Mathlib.Control.Monad.Basic
import ChipEight.Proofs.Tone

/-!
# The loop of a run

A run asks the host whether to stop, runs a frame, naps for what is left of the time of the
frame, and asks again.  Of the answers it matters only how many frames come before the first
yes, and the time that the frames take does not matter at all.

* `Session.Script`, `Session.Loop` — what comes from outside during a run, and the loop that
  asks for it;
* `Session.loop_iff` — the loop ends, and always as `Session.frames` does;
* `Session.frames_of_all_ok`, `Session.frames_of_first_fault` — how often it asks and how
  many frames it runs;
* `Session.run_atPace` — the pace matters only for the cycles that fit into a frame;
* `Session.run_iterates_frames` — a run is its frames, and then a silence.
-/

namespace ChipEight

/-- The nap after a frame that took a number of nanoseconds, if it left any time for one. -/
def Pace.naps (pace : Pace) (elapsed : Nat) : List Nat :=
  if elapsed ≤ pace.frameNanoseconds then [pace.frameNanoseconds - elapsed] else []

namespace Session

/-! ## The loop -/

/-- What comes from outside during a run. -/
structure Script where
  /-- The answers of the host when it is asked whether to stop. -/
  stops : Nat → Bool
  /-- The levels of the keys, frame by frame. -/
  readings : Nat → Levels
  /-- The nanoseconds that the frames take. -/
  elapsed : Nat → Nat

namespace Script

/-- What is still to come after one frame. -/
def later (script : Script) : Script where
  stops poll := script.stops (poll + 1)
  readings frame := script.readings (frame + 1)
  elapsed frame := script.elapsed (frame + 1)

/-- The host wants to stop for the first time after a number of frames. -/
structure StopsAfter (script : Script) (limit : Nat) : Prop where
  before : ∀ poll < limit, script.stops poll = false
  stops : script.stops limit = true

variable {script : Script} {limit : Nat}

theorem StopsAfter.later (hStops : script.StopsAfter (limit + 1)) :
    script.later.StopsAfter limit where
  before poll hPoll := hStops.before (poll + 1) (Nat.succ_lt_succ hPoll)
  stops := hStops.stops

theorem StopsAfter.eq_zero (hStops : script.StopsAfter limit) (hStop : script.stops 0 = true) :
    limit = 0 := by
  refine Nat.eq_zero_of_not_pos fun hPos => ?_
  rw [hStops.before 0 hPos] at hStop
  contradiction

theorem StopsAfter.exists_succ (hStops : script.StopsAfter limit)
    (hGo : script.stops 0 = false) : ∃ later, limit = later + 1 := by
  cases limit with
  | zero =>
    rw [hStops.stops] at hGo
    contradiction
  | succ later => exact ⟨later, rfl⟩

end Script

/-- The loop of a run, with its result and the naps it takes.  The host stops it, or a frame
fails, or a frame gets through and the loop goes on after a nap. -/
inductive Loop : Session → Script → RunResult → List Nat → Prop where
  | stop {session : Session} {script : Script} (hStop : script.stops 0 = true) :
      Loop session script ⟨1, 0, none, session, []⟩ []
  | fail {session : Session} {script : Script} {fault : Fault}
      (hGo : script.stops 0 = false)
      (hFrame : (session.frame (script.readings 0)).result = .error fault) :
      Loop session script
        ⟨1, 1, some fault, (session.frame (script.readings 0)).session,
          (session.frame (script.readings 0)).events⟩ []
  | next {session : Session} {script : Script} {report : FrameReport} {rest : RunResult}
      {naps : List Nat} (hGo : script.stops 0 = false)
      (hFrame : (session.frame (script.readings 0)).result = .ok report)
      (hRest : Loop (session.frame (script.readings 0)).session script.later rest naps) :
      Loop session script
        { rest with
          polls := rest.polls + 1
          frames := rest.frames + 1
          events := (session.frame (script.readings 0)).events ++ rest.events }
        (session.pace.naps (script.elapsed 0) ++ naps)

variable {session : Session} {script : Script} {readings : Nat → Levels} {limit : Nat}

theorem exists_loop (hStops : script.StopsAfter limit) :
    ∃ naps, Loop session script (session.frames script.readings limit) naps := by
  induction limit generalizing session script with
  | zero => exact ⟨[], .stop hStops.stops⟩
  | succ limit ih =>
    have hGo : script.stops 0 = false := hStops.before 0 (Nat.succ_pos limit)
    cases hFrame : (session.frame (script.readings 0)).result with
    | error fault =>
      simp only [frames, hFrame]
      exact ⟨[], .fail hGo hFrame⟩
    | ok report =>
      simp only [frames, hFrame]
      obtain ⟨naps, hRest⟩ : ∃ naps, Loop (session.frame (script.readings 0)).session script.later
          ((session.frame (script.readings 0)).session.frames script.later.readings limit) naps :=
        ih hStops.later
      exact ⟨_, .next hGo hFrame hRest⟩

/-- However the loop ends, the number of frames that the host lets it run decides. -/
theorem eq_frames_of_loop {done : RunResult} {naps : List Nat}
    (hLoop : Loop session script done naps) (hStops : script.StopsAfter limit) :
    done = session.frames script.readings limit := by
  induction hLoop generalizing limit with
  | stop hStop =>
    obtain rfl := hStops.eq_zero hStop
    rfl
  | fail hGo hFrame =>
    obtain ⟨later, rfl⟩ := hStops.exists_succ hGo
    simp only [frames, hFrame]
  | next hGo hFrame hRest ih =>
    obtain ⟨later, rfl⟩ := hStops.exists_succ hGo
    simp only [frames, hFrame, ih hStops.later]
    rfl

/-- The loop ends, and it ends in one way only. -/
theorem loop_iff (hStops : script.StopsAfter limit) {done : RunResult} :
    (∃ naps, Loop session script done naps) ↔ done = session.frames script.readings limit := by
  constructor
  · rintro ⟨naps, hLoop⟩
    exact eq_frames_of_loop hLoop hStops
  · rintro rfl
    exact exists_loop hStops

/-- A run as the host sees it: the loop, and then a silence. -/
def Runs (session : Session) (script : Script) (done : RunResult) : Prop :=
  ∃ looped naps, Loop session script looped naps ∧
    done = { looped with
      session := looped.session.silence.2
      events := looped.events ++ looped.session.silence.1 }

theorem runs_iff (hStops : script.StopsAfter limit) {done : RunResult} :
    session.Runs script done ↔ done = session.run script.readings limit := by
  constructor
  · rintro ⟨looped, naps, hLoop, rfl⟩
    obtain rfl := (loop_iff hStops).mp ⟨naps, hLoop⟩
    rfl
  · rintro rfl
    obtain ⟨naps, hLoop⟩ : ∃ naps,
        Loop session script (session.frames script.readings limit) naps := exists_loop hStops
    exact ⟨_, naps, hLoop, rfl⟩

/-! ## Polls and frames -/

/-- What a frame results in after the frames before it. -/
def frameResult (session : Session) (readings : Nat → Levels) (index : Nat) :
    Except Fault FrameReport :=
  ((session.after (frameActions readings index)).2.frame (readings index)).result

theorem frameResult_succ (session : Session) (readings : Nat → Levels) (index : Nat) :
    session.frameResult readings (index + 1) =
      (session.frame (readings 0)).session.frameResult (fun later => readings (later + 1))
        index := by
  simp only [frameResult, frameActions_succ, after, act]

/-- The first frames all get through. -/
def GetThrough (session : Session) (readings : Nat → Levels) (count : Nat) : Prop :=
  ∀ index < count, ∃ report, session.frameResult readings index = .ok report

theorem GetThrough.first {count : Nat} (hOk : session.GetThrough readings (count + 1)) :
    ∃ report, (session.frame (readings 0)).result = .ok report :=
  hOk 0 (Nat.succ_pos count)

theorem GetThrough.later {count : Nat} (hOk : session.GetThrough readings (count + 1)) :
    (session.frame (readings 0)).session.GetThrough (fun later => readings (later + 1)) count := by
  intro index hIndex
  rw [← frameResult_succ]
  exact hOk (index + 1) (Nat.succ_lt_succ hIndex)

/-- If all frames get through, then the host is asked once more than there are frames. -/
theorem frames_of_all_ok (hOk : session.GetThrough readings limit) :
    (session.frames readings limit).polls = limit + 1 ∧
      (session.frames readings limit).frames = limit ∧
      (session.frames readings limit).fault = none := by
  induction limit generalizing session readings with
  | zero => exact ⟨rfl, rfl, rfl⟩
  | succ limit ih =>
    obtain ⟨report, hFirst⟩ := hOk.first
    obtain ⟨hPolls, hFrames, hFault⟩ := ih hOk.later
    simp only [frames, hFirst, hPolls, hFrames, hFault, and_self]

/-- The first frame that fails is the last one, and the host is not asked after it. -/
theorem frames_of_first_fault {index : Nat} {fault : Fault} (hIndex : index < limit)
    (hBefore : session.GetThrough readings index)
    (hFault : session.frameResult readings index = .error fault) :
    (session.frames readings limit).polls = index + 1 ∧
      (session.frames readings limit).frames = index + 1 ∧
      (session.frames readings limit).fault = some fault := by
  induction index generalizing session readings limit with
  | zero =>
    obtain ⟨later, rfl⟩ := Nat.exists_eq_add_one.mpr hIndex
    have hFirst : (session.frame (readings 0)).result = .error fault := hFault
    simp only [frames, hFirst, and_self]
  | succ index ih =>
    obtain ⟨later, rfl⟩ := Nat.exists_eq_add_one.mpr (Nat.zero_lt_of_lt hIndex)
    obtain ⟨report, hFirst⟩ := hBefore.first
    rw [frameResult_succ] at hFault
    obtain ⟨hPolls, hFrames, hRest⟩ :=
      ih (Nat.lt_of_succ_lt_succ hIndex) hBefore.later hFault
    simp only [frames, hFirst, hPolls, hFrames, hRest, and_self]

/-! ## The pace -/

/-- The session at another pace. -/
def atPace (session : Session) (pace : Pace) : Session := { session with pace := pace }

/-- A frame looks at its pace for its cycles only. -/
theorem frame_atPace {pace : Pace} (hCycles : pace.cyclesPerFrame = session.pace.cyclesPerFrame)
    (reading : Levels) :
    (session.atPace pace).frame reading =
      { session.frame reading with session := (session.frame reading).session.atPace pace } := by
  simp only [frame, atPace, hCycles]
  split <;> rfl

theorem pace_frame (session : Session) (reading : Levels) :
    (session.frame reading).session.pace = session.pace := by
  rcases session.frame_cases reading with ⟨report, machine, -, hFrame⟩ | ⟨fault, machine, -, hFrame⟩
  · rw [hFrame, endFrame]
  · rw [hFrame]

theorem frames_atPace {pace : Pace} (hCycles : pace.cyclesPerFrame = session.pace.cyclesPerFrame)
    (readings : Nat → Levels) (limit : Nat) :
    (session.atPace pace).frames readings limit =
      { session.frames readings limit with
        session := (session.frames readings limit).session.atPace pace } := by
  induction limit generalizing session readings with
  | zero => rfl
  | succ limit ih =>
    have hNext :
        pace.cyclesPerFrame = (session.frame (readings 0)).session.pace.cyclesPerFrame := by
      rw [pace_frame, hCycles]
    simp only [frames, frame_atPace hCycles]
    cases (session.frame (readings 0)).result with
    | error fault => rfl
    | ok report => simp only [ih hNext]

theorem run_atPace {pace : Pace} (hCycles : pace.cyclesPerFrame = session.pace.cyclesPerFrame)
    (readings : Nat → Levels) (limit : Nat) :
    (session.atPace pace).run readings limit =
      { session.run readings limit with
        session := (session.run readings limit).session.atPace pace } := by
  simp only [run, frames_atPace hCycles]
  rfl

/-- A run is its frames one after the other.  The loop of a run, whose host wants to stop for
the first time after a number of frames, ends in one way only, whatever the host would answer
after that and however long the frames take.  If all these frames get through, the host has been
asked once more than there are frames; otherwise the run ends with the first frame that fails,
after which the host is not asked.  The run leaves the session as these frames leave it and
does what they do in order, apart from one pause at the end, exactly if the tone is on after
them.  Of its pace only the cycles of a frame matter. -/
theorem run_iterates_frames (session : Session) (script : Script) (limit : Nat)
    (hStops : script.StopsAfter limit) :
    let run := session.run script.readings limit
    let frames := session.after (frameActions script.readings run.frames)
    (∀ done, session.Runs script done ↔ done = run) ∧
      (session.GetThrough script.readings limit →
        run.polls = limit + 1 ∧ run.frames = limit ∧ run.fault = none) ∧
      (∀ index < limit, session.GetThrough script.readings index →
        ∀ fault, session.frameResult script.readings index = .error fault →
          run.polls = index + 1 ∧ run.frames = index + 1 ∧ run.fault = some fault) ∧
      run.session = { frames.2 with playing := false } ∧
      run.events = frames.1 ++ (if frames.2.playing then [.pause] else []) ∧
      ∀ pace : Pace, pace.cyclesPerFrame = session.pace.cyclesPerFrame →
        (session.atPace pace).run script.readings limit =
          { run with session := run.session.atPace pace } := by
  intro run frames
  obtain ⟨hSession, hEvents⟩ := session.run_silences script.readings limit
  refine ⟨fun done => runs_iff hStops, frames_of_all_ok, ?_, hSession, hEvents, ?_⟩
  · intro index hIndex hBefore fault hFault
    exact frames_of_first_fault hIndex hBefore hFault
  · intro pace hCycles
    exact run_atPace hCycles script.readings limit

/-- A run of frames of one cycle each, of which the second returns without a saved address
while the tone is on. -/
theorem run_iterates_frames_failing :
    let loaded :=
      ((Machine.fresh (Entropy.ofWords fun _ => 0)).act (.load [0x60, 0x01, 0x00, 0xEE])).2
    let session := start { loaded with sound := ⟨5⟩ } ⟨1, 1⟩
    let script (limit : Nat) : Script :=
      ⟨fun poll => decide (poll = limit), fun _ => Levels.released, fun frame => frame⟩
    (∃ done, session.Runs (script 1) done ∧
      done.polls = 2 ∧ done.frames = 1 ∧ done.fault = none) ∧
    ∃ done, session.Runs (script 3) done ∧
      done.polls = 2 ∧ done.frames = 2 ∧ done.fault = some .stackEmpty ∧
      Event.tones done.events = [.play, .pause] := by
  intro loaded session script
  have hFirst : session.GetThrough (fun _ => Levels.released) 1 := by
    intro index hIndex
    obtain rfl := Nat.lt_one_iff.mp hIndex
    exact ⟨⟨1, false, 0⟩, by decide +kernel⟩
  have hSecond : session.frameResult (fun _ => Levels.released) 1 = .error .stackEmpty := by
    decide +kernel
  obtain ⟨hStopped, hThrough, -⟩ :=
    run_iterates_frames session (script 1) 1 ⟨by decide, rfl⟩
  obtain ⟨hHalted, -, hFailing, -, hEvents, -⟩ :=
    run_iterates_frames session (script 3) 3 ⟨by decide, rfl⟩
  obtain ⟨hPolls, hFrames, hFault⟩ := hFailing 1 (by decide) hFirst .stackEmpty hSecond
  refine ⟨⟨_, (hStopped _).mpr rfl, hThrough hFirst⟩,
    _, (hHalted _).mpr rfl, hPolls, hFrames, hFault, ?_⟩
  rw [hEvents, hFrames]
  decide +kernel

end Session
end ChipEight
