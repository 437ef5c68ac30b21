import ChipEight.Proofs.Frames

/-!
# The protocol of the tone

A host starts the tone and stops it, and it never does either twice in a row.  What a
session keeps for this is one bit, which follows the sound countdown only at the end of a
frame: in between the countdown may be set, ticked, reset or replaced, a frame may halt
before it looks at the countdown, and a run stops the tone while the countdown still runs.
The order of the events does not depend on any of this.

* `Session.Happening` — what can happen to a session: an action of the host, or any change
  whatsoever to its machine;
* `Event.InTune` — the events so far alternate, and the bit is the side they ended on;
* `Session.tones_frame` — a frame switches the tone from what it was to what it is after;
* `Session.tone_protocol` — the whole protocol, over everything that can happen.
-/

namespace ChipEight
namespace Event

/-- Whether an event starts or stops the tone. -/
def isTone : Event → Bool
  | .present _ => false
  | .play | .pause => true

/-- The events that start or stop the tone, in order. -/
def tones (events : List Event) : List Event := events.filter isTone

/-- Play, pause, play and so on, up to a number of events. -/
def alternation (count : Nat) : List Event :=
  (List.range count).map fun place => if place % 2 = 0 then .play else .pause

@[simp] theorem length_alternation (count : Nat) : (alternation count).length = count := by
  simp [alternation]

theorem alternation_succ (count : Nat) :
    alternation (count + 1) =
      alternation count ++ [if count % 2 = 0 then .play else .pause] := by
  simp [alternation, List.range_succ]

@[simp] theorem tones_append (first second : List Event) :
    tones (first ++ second) = tones first ++ tones second :=
  List.filter_append first second

@[simp] theorem tones_presentIf (changed : Bool) (screen : Screen) :
    tones (presentIf changed screen) = [] := by
  cases changed <;> rfl

@[simp] theorem tones_tone (playing wanted : Bool) :
    tones (tone playing wanted) = tone playing wanted := by
  cases playing <;> cases wanted <;> rfl

theorem tone_self (playing : Bool) : tone playing playing = [] := if_pos rfl

theorem length_tone_le (playing wanted : Bool) : (tone playing wanted).length ≤ 1 := by
  cases playing <;> cases wanted <;> decide

/-- Silencing the tone stops it exactly if it is on. -/
theorem tone_false (playing : Bool) :
    tone playing false = if playing then [.pause] else [] := by
  cases playing <;> rfl

/-- The tone was started and stopped in turn, and it is on exactly after an odd number of
these events. -/
def InTune (events : List Event) (playing : Bool) : Prop :=
  ∃ count, tones events = alternation count ∧ (playing = true ↔ count % 2 = 1)

theorem inTune_nil : InTune [] false := ⟨0, rfl, by decide⟩

/-- Switching the tone to what is wanted keeps the order. -/
theorem InTune.switch {events : List Event} {playing : Bool} (hTune : InTune events playing)
    (wanted : Bool) {more : List Event} (hMore : tones more = tone playing wanted) :
    InTune (events ++ more) wanted := by
  obtain ⟨count, hOrder, hParity⟩ := hTune
  by_cases hSame : playing = wanted
  · subst hSame
    refine ⟨count, ?_, hParity⟩
    rw [tones_append, hMore, tone_self, List.append_nil, hOrder]
  · -- one event is added, and it is the one whose turn it is
    have hTurn : wanted = true ↔ count % 2 = 0 := by
      rw [Bool.eq_not_of_ne (Ne.symm hSame), Bool.not_eq_true', ← Bool.not_eq_true, hParity]
      omega
    refine ⟨count + 1, ?_, ?_⟩
    · rw [tones_append, hMore, hOrder, alternation_succ, tone, if_neg hSame]
      simp only [hTurn]
      split <;> rfl
    · rw [hTurn]
      omega

theorem InTune.order {events : List Event} {playing : Bool} (hTune : InTune events playing) :
    tones events = alternation (tones events).length := by
  obtain ⟨count, hOrder, -⟩ := hTune
  rw [hOrder, length_alternation]

theorem InTune.playing_iff {events : List Event} {playing : Bool}
    (hTune : InTune events playing) :
    playing = true ↔ (tones events).getLast? = some .play := by
  obtain ⟨count, hOrder, hParity⟩ := hTune
  rw [hParity, hOrder]
  cases count with
  | zero => decide
  | succ count =>
    rw [alternation_succ, List.getLast?_concat]
    by_cases hEven : count % 2 = 0
    · simp only [hEven, if_true, iff_true]
      omega
    · simp only [hEven, if_false, Option.some.injEq, reduceCtorEq, iff_false]
      omega

end Event

namespace Session

open Event

/-- What can happen to a session. -/
inductive Happening where
  | act (action : Action)
  /-- The machine is changed in whatever way. -/
  | change (machine : Machine)

/-- What the host does to its devices, and the session afterwards. -/
def happen (session : Session) : Happening → List Event × Session
  | .act action => (session.act action).2
  | .change machine => ([], { session with machine := machine })

/-- Everything that the host did while one thing happened after the other. -/
def story (session : Session) : List Happening → List Event × Session
  | [] => ([], session)
  | happening :: happenings =>
    let first := session.happen happening
    let rest := first.2.story happenings
    (first.1 ++ rest.1, rest.2)

/-- A frame switches the tone from what it was to what it is after the frame, and does
nothing else about it. -/
theorem tones_frame (session : Session) (reading : Levels) :
    tones (session.frame reading).events =
      tone session.playing (session.frame reading).session.playing := by
  rcases session.frame_cases reading with ⟨report, machine, -, hFrame⟩ | ⟨fault, machine, -, hFrame⟩
  · rw [hFrame]
    simp [endFrame]
  · rw [hFrame]
    exact (tone_self session.playing).symm

theorem tones_of_frame_error {session : Session} {reading : Levels} {fault : Fault}
    (hResult : (session.frame reading).result = .error fault) :
    tones (session.frame reading).events = [] := by
  rcases session.frame_cases reading with ⟨report, machine, -, hFrame⟩ | ⟨_, machine, -, hFrame⟩
  · rw [hFrame] at hResult
    contradiction
  · rw [hFrame]
    rfl

/-- After a frame that got through, the tone is on exactly while the countdown runs. -/
theorem playing_of_frame_ok {session : Session} {reading : Levels} {report : FrameReport}
    (hResult : (session.frame reading).result = .ok report) :
    (session.frame reading).session.playing = true ↔
      (session.frame reading).session.machine.sound.value ≠ 0 := by
  rcases session.frame_cases reading with ⟨_, machine, -, hFrame⟩ | ⟨fault, machine, -, hFrame⟩
  · rw [hFrame]
    show machine.tick.isSounding = true ↔ machine.tick.sound.value ≠ 0
    rw [Machine.isSounding, Countdown.isRunning, decide_eq_true_iff, UInt8.pos_iff_ne_zero]
  · rw [hFrame] at hResult
    contradiction

theorem inTune_frame {session : Session} {events : List Event}
    (hTune : InTune events session.playing) (reading : Levels) :
    InTune (events ++ (session.frame reading).events) (session.frame reading).session.playing :=
  hTune.switch _ (session.tones_frame reading)

theorem inTune_frames {session : Session} {events : List Event}
    (hTune : InTune events session.playing) (readings : Nat → Levels) (limit : Nat) :
    InTune (events ++ (session.frames readings limit).events)
      (session.frames readings limit).session.playing := by
  induction limit generalizing session events readings with
  | zero =>
    rw [frames, List.append_nil]
    exact hTune
  | succ limit ih =>
    have hFirst := inTune_frame hTune (readings 0)
    cases hResult : (session.frame (readings 0)).result with
    | error fault =>
      simp only [frames, hResult]
      exact hFirst
    | ok report =>
      simp only [frames, hResult, ← List.append_assoc]
      exact ih hFirst _

/-- Whatever happens to a session, the tone keeps its order. -/
theorem inTune_happen {session : Session} {events : List Event}
    (hTune : InTune events session.playing) (happening : Happening) :
    InTune (events ++ (session.happen happening).1) (session.happen happening).2.playing := by
  cases happening with
  | change machine =>
    show InTune (events ++ []) session.playing
    rw [List.append_nil]
    exact hTune
  | act action =>
    cases action with
    | frame reading => exact inTune_frame hTune reading
    | machine action =>
      show InTune (events ++ []) session.playing
      rw [List.append_nil]
      exact hTune
    | run readings limit =>
      -- the silence at the end of the run is one more switch
      have hSilence := (inTune_frames hTune readings limit).switch false (tones_tone _ false)
      rw [List.append_assoc] at hSilence
      exact hSilence

theorem inTune_story {session : Session} {events : List Event}
    (hTune : InTune events session.playing) (happenings : List Happening) :
    InTune (events ++ (session.story happenings).1) (session.story happenings).2.playing := by
  induction happenings generalizing session events with
  | nil =>
    rw [story, List.append_nil]
    exact hTune
  | cons happening happenings ih =>
    have hRest := ih (inTune_happen hTune happening)
    rw [List.append_assoc] at hRest
    exact hRest

/-- A run adds to its frames one pause at most, exactly if the tone is on after them, and
it leaves the tone off. -/
theorem run_silences (session : Session) (readings : Nat → Levels) (limit : Nat) :
    let run := session.run readings limit
    let frames := session.after (frameActions readings run.frames)
    run.session = { frames.2 with playing := false } ∧
      run.events = frames.1 ++ if frames.2.playing then [.pause] else [] := by
  have hFrames := session.after_frameActions readings limit
  simp only [run, silence, hFrames, tone_false, and_self]

/-- Whatever happens to a session from its start: the tone is started and stopped in turn,
and the session knows which came last.  A frame does one of them at most and a frame that
fails does neither; after every other frame the tone is on exactly while the sound
countdown runs.  A run ends with the tone off, for which it stops the tone exactly if it
was on after its last frame. -/
theorem tone_protocol (machine : Machine) (pace : Pace) (happenings : List Happening) :
    let events := ((start machine pace).story happenings).1
    let session := ((start machine pace).story happenings).2
    tones events = alternation (tones events).length ∧
      (session.playing = true ↔ (tones events).getLast? = some .play) ∧
      (∀ reading,
        let frame := session.frame reading
        (tones frame.events).length ≤ 1 ∧
          (∀ fault, frame.result = .error fault → tones frame.events = []) ∧
          ∀ report, frame.result = .ok report →
            (frame.session.playing = true ↔ frame.session.machine.sound.value ≠ 0)) ∧
      ∀ readings limit,
        let run := session.run readings limit
        let frames := session.after (frameActions readings run.frames)
        run.session = { frames.2 with playing := false } ∧
          run.events = frames.1 ++ if frames.2.playing then [.pause] else [] := by
  intro events session
  have hStart : InTune [] (start machine pace).playing := inTune_nil
  have hTune : InTune events session.playing := inTune_story hStart happenings
  refine ⟨hTune.order, hTune.playing_iff, ?_, session.run_silences⟩
  intro reading frame
  refine ⟨?_, fun fault => tones_of_frame_error, fun report => playing_of_frame_ok⟩
  rw [session.tones_frame reading]
  exact length_tone_le _ _

/-- A machine whose sound countdown runs for three ticks: its first frame starts the tone,
and a run stops it although the countdown still runs. -/
theorem tone_protocol_sounding :
    ∃ events session,
      (start { Machine.fresh (Entropy.ofWords fun _ => 0) with sound := ⟨3⟩ } ⟨60, 60⟩).story
          [.act (.frame Levels.released)] = (events, session) ∧
        (tones events).getLast? = some .play ∧
        (session.run (fun _ => Levels.released) 1).session.playing = false ∧
        (session.run (fun _ => Levels.released) 1).session.machine.sound = ⟨1⟩ := by
  have hAll := tone_protocol
    { Machine.fresh (Entropy.ofWords fun _ => 0) with sound := ⟨3⟩ } ⟨60, 60⟩
    [.act (.frame Levels.released)]
  dsimp only at hAll
  generalize hStory :
    (start { Machine.fresh (Entropy.ofWords fun _ => 0) with sound := ⟨3⟩ } ⟨60, 60⟩).story
      [.act (.frame Levels.released)] = reached at hAll
  obtain ⟨events, session⟩ := reached
  obtain ⟨-, hLast, -, hRuns⟩ := hAll
  have hSession : _ = session := congrArg Prod.snd hStory
  have hPlaying : session.playing = true := by
    rw [← hSession]
    decide +kernel
  have hSound : (session.run (fun _ => Levels.released) 1).session.machine.sound = ⟨1⟩ := by
    rw [← hSession]
    decide +kernel
  have hSilent := congrArg Session.playing (hRuns (fun _ => Levels.released) 1).1
  exact ⟨events, session, rfl, hLast.mp hPlaying, hSilent, hSound⟩

end Session
end ChipEight
