import ChipEight.Proofs.Footprint
import ChipEight.Proofs.Frames

/-!
# The screen that the host shows

The machine remembers in one bit that its screen has to be shown.  Two instructions and a
reset set the bit, and the end of a frame asks for it and takes it away.  This module
shows that nothing is missed and nothing is shown twice: whenever the bit is not set, what
the host showed last is what is on the screen.

* `Machine.Draws` — the next step executes one of the two instructions that draw;
* `Machine.drawing_of_steps` — what a step does to the bit and to the screen;
* `Moment.Stale` — a draw or a reset came after the screen was last shown;
* `Session.Shown` — the bit says whether the screen is stale, and what was shown last is
  the screen if it is not;
* `Session.shows_every_change` — this holds at every point of a session, and a frame that
  gets through shows the screen once if it is stale, and not at all otherwise.
-/

namespace ChipEight

namespace Machine

/-! ## What draws -/

/-- The next step executes `00E0` or `DXYN`. -/
def Draws (machine : Machine) : Prop :=
  machine.Ready ∧ machine.counter.toNat + 1 < 4096 ∧
    (machine.word = 0x00E0 ∨ machine.word / 0x1000 = 0xD)

instance (machine : Machine) : Decidable machine.Draws :=
  inferInstanceAs (Decidable (_ ∧ _ ∧ _))

/-- The machine executes such an opcode exactly if it decodes one of the two instructions
that change the screen. -/
theorem draws_iff_decode? {machine : Machine} {opcode : Opcode}
    (hFetches : machine.Fetches opcode) :
    machine.Draws ↔
      ∃ instruction, Instruction.decode? opcode = some instruction ∧ instruction.draws := by
  constructor
  · rintro ⟨-, -, hWord⟩
    rw [← hFetches.word] at hWord
    rcases hWord with hClear | hDraw
    · exact ⟨.clear, Instruction.decode?_of_encode trivial hClear.symm, rfl⟩
    · exact ⟨.draw opcode.x opcode.y opcode.lastDigit,
        Instruction.decode?_of_encode (Instruction.lastDigit_fits opcode)
          (Instruction.registerPair_digits hDraw), rfl⟩
  · rintro ⟨instruction, hDecode, hDraws⟩
    obtain ⟨hFits, hEncode⟩ := Instruction.encode_of_decode? hDecode
    refine ⟨hFetches.toReady, hFetches.inside, ?_⟩
    rw [← hFetches.word, ← hEncode]
    cases instruction with
    | clear => exact Or.inl rfl
    | draw x y height =>
      have hHeight : height.toNat < 0x10 := hFits
      right
      simp only [Instruction.encode, Instruction.registerPair, Instruction.registerConstant]
      omega
    | _ => contradiction

/-- A step sets the bit exactly if it draws, and any other step leaves the screen alone. -/
theorem drawing_of_steps {machine next : Machine} {result : Except Fault Outcome}
    (hSteps : machine.Steps result next) :
    next.redraw = (machine.redraw || decide machine.Draws) ∧
      (¬ machine.Draws → next.screen = machine.screen) := by
  cases hSteps with
  | halted hFault =>
    have hQuiet : ¬ machine.Draws := fun hDraws => hDraws.1.fault_ne _ hFault
    simp [hQuiet]
  | waiting hFault hAwaiting hLatch =>
    have hQuiet : ¬ machine.Draws := fun hDraws => hDraws.1.awaiting_ne _ hAwaiting
    simp [hQuiet]
  | resumed hFault hAwaiting hLatch =>
    have hQuiet : ¬ machine.Draws := fun hDraws => hDraws.1.awaiting_ne _ hAwaiting
    simp [hQuiet, Machine.resumed]
  | outside hReady hOutside =>
    have hQuiet : ¬ machine.Draws := fun hDraws => Nat.not_lt.mpr hOutside hDraws.2.1
    simp [hQuiet]
  | unknown hFetches hDecode =>
    have hQuiet : ¬ machine.Draws := by
      rw [draws_iff_decode? hFetches, hDecode]
      simp
    simp [hQuiet, recording, advance]
  | failed hFetches hDecode hEffect =>
    -- only a return and a call fail, and these two draw nothing
    have hQuiet : ¬ machine.Draws := by
      rw [draws_iff_decode? hFetches, hDecode]
      rcases effect_eq_error_iff.mp hEffect with ⟨rfl, -⟩ | ⟨⟨address, rfl⟩, -⟩
      · simp [Instruction.draws]
      · simp [Instruction.draws]
    simp [hQuiet, recording]
  | @executed opcode instruction done hFetches hDecode hEffect =>
    have hFootprint := footprint_of_effect hEffect
    have hDraws : machine.Draws ↔ instruction.draws := by
      rw [draws_iff_decode? hFetches, hDecode]
      simp
    constructor
    · show (done.machine.redraw || decide (done.signal = .draw)) = _
      rw [hFootprint.redraw, hFootprint.signal]
      simp [hDraws, recording]
    · intro hQuiet
      exact hFootprint.screen (eq_false_of_ne_true (mt hDraws.mpr hQuiet))

/-! ## The history of the screen -/

end Machine

/-- What matters about the screen in the history of a session. -/
inductive Moment where
  | reset
  /-- A `00E0` or a `DXYN` was executed. -/
  | drawn
  /-- The host showed the screen. -/
  | shown
deriving DecidableEq

namespace Moment

/-- A draw or a reset came after the screen was last shown. -/
def Stale (history : List Moment) : Prop :=
  ∃ earlier moment later,
    history = earlier ++ moment :: later ∧ moment ≠ .shown ∧ .shown ∉ later

/-- Only the latest moment matters. -/
theorem stale_concat {history : List Moment} {moment : Moment} :
    Stale (history ++ [moment]) ↔ moment ≠ .shown := by
  constructor
  · rintro ⟨earlier, change, later, hHistory, hChange, hLater⟩ hShown
    have hSame := congrArg List.getLast? hHistory
    rw [List.getLast?_concat, List.getLast?_append] at hSame
    have hLast : (change :: later).getLast? = some moment := by simpa using hSame.symm
    rcases List.mem_cons.mp (List.mem_of_getLast? hLast) with hFirst | hMem
    · exact hChange (hFirst.symm.trans hShown)
    · exact hLater (hShown ▸ hMem)
  · intro hChange
    exact ⟨history, moment, [], rfl, hChange, List.not_mem_nil⟩

theorem Stale.append {history more : List Moment} (hStale : Stale history)
    (hMore : .shown ∉ more) : Stale (history ++ more) := by
  obtain ⟨earlier, moment, later, rfl, hChange, hLater⟩ := hStale
  refine ⟨earlier, moment, later ++ more, by simp, hChange, ?_⟩
  rw [List.mem_append, not_or]
  exact ⟨hLater, hMore⟩

end Moment

namespace Event

/-- The screens that the host showed, in order. -/
def screens (events : List Event) : List Screen :=
  events.filterMap fun
    | .present screen => some screen
    | .play | .pause => none

/-- The screen that the host showed last. -/
def lastScreen (events : List Event) : Option Screen := (screens events).getLast?

@[simp] theorem screens_append (first second : List Event) :
    screens (first ++ second) = screens first ++ screens second :=
  List.filterMap_append

@[simp] theorem screens_presentIf (changed : Bool) (screen : Screen) :
    screens (presentIf changed screen) = if changed then [screen] else [] := by
  cases changed <;> rfl

@[simp] theorem screens_tone (playing wanted : Bool) : screens (tone playing wanted) = [] := by
  cases playing <;> cases wanted <;> rfl

/-- What was shown last, if more may have been shown since. -/
theorem lastScreen_append (first second : List Event) :
    lastScreen (first ++ second) = (screens second).getLast?.or (lastScreen first) := by
  rw [lastScreen, screens_append, List.getLast?_append]
  rfl

end Event

namespace Machine

/-- What a step adds to the history. -/
def drawn (machine : Machine) : List Moment := if machine.Draws then [.drawn] else []

/-- What an operation adds to the history. -/
def moments (machine : Machine) : Action → List Moment
  | .step => machine.drawn
  | .reset => [.reset]
  | _ => []

/-- What a host does to the machine between frames: it leaves the question whether the
screen changed to the session, and it executes nothing outside of a step. -/
def Action.isOrdinary : Action → Bool
  | .takeRedraw | .execute _ => false
  | _ => true

theorem shown_not_mem_drawn (machine : Machine) : .shown ∉ machine.drawn := by
  unfold drawn
  split <;> simp

end Machine

namespace Session

/-- What the cycles of a frame add to the history. -/
def cycleMoments (session : Session) (reading : Levels) : List Moment :=
  ((session.machine.setKeys reading).cycleStarts session.pace.cyclesPerFrame).flatMap
    Machine.drawn

/-- What a frame adds to the history. -/
def frameMoments (session : Session) (reading : Levels) : List Moment :=
  session.cycleMoments reading ++
    (Event.screens (session.frame reading).events).map fun _ => .shown

/-- What the first frames of a run add to the history. -/
def framesMoments (session : Session) (readings : Nat → Levels) : Nat → List Moment
  | 0 => []
  | count + 1 =>
    session.frameMoments (readings 0) ++
      (session.frame (readings 0)).session.framesMoments (fun later => readings (later + 1)) count

/-- What an action adds to the history. -/
def moments (session : Session) : Action → List Moment
  | .frame reading => session.frameMoments reading
  | .run readings limit =>
    session.framesMoments readings (session.run readings limit).frames
  | .machine action => session.machine.moments action

/-- The history of a session over a sequence of actions. -/
def history (session : Session) : List Action → List Moment
  | [] => []
  | action :: actions => session.moments action ++ (session.act action).2.2.history actions

def Action.isOrdinary : Action → Bool
  | .machine action => action.isOrdinary
  | _ => true

theorem shown_not_mem_cycleMoments (session : Session) (reading : Levels) :
    .shown ∉ session.cycleMoments reading := by
  rw [cycleMoments, List.mem_flatMap]
  rintro ⟨start, -, hMem⟩
  exact start.shown_not_mem_drawn hMem

/-! ## The bit follows the history -/

/-- The machine remembers exactly whether its screen is stale, and if it is not, the
screen was shown as it is. -/
structure Shown (history : List Moment) (events : List Event) (machine : Machine) : Prop where
  redraw : machine.redraw = true ↔ Moment.Stale history
  screen : machine.redraw = false → Event.lastScreen events = some machine.screen

variable {history : List Moment} {events : List Event} {machine : Machine}

/-- Right after a draw or a reset nothing of the new screen was shown. -/
theorem Shown.of_change {moment : Moment} (hChange : moment ≠ .shown)
    (hSet : machine.redraw = true) : Shown (history ++ [moment]) events machine where
  redraw := by
    rw [hSet, Moment.stale_concat]
    exact iff_of_true rfl hChange
  screen hClear := by
    rw [hSet] at hClear
    contradiction

theorem Shown.of_same (hShown : Shown history events machine) {next : Machine}
    (hRedraw : next.redraw = machine.redraw) (hScreen : next.screen = machine.screen) :
    Shown history events next where
  redraw := hRedraw ▸ hShown.redraw
  screen := by
    rw [hRedraw, hScreen]
    exact hShown.screen

theorem Shown.step (hShown : Shown history events machine) :
    Shown (history ++ machine.drawn) events machine.step.2 := by
  obtain ⟨hRedraw, hScreen⟩ := Machine.drawing_of_steps machine.steps_step
  by_cases hDraws : machine.Draws
  · rw [Machine.drawn, if_pos hDraws]
    exact Shown.of_change nofun (by simp [hRedraw, hDraws])
  · rw [Machine.drawn, if_neg hDraws, List.append_nil]
    exact hShown.of_same (by simp [hRedraw, hDraws]) (hScreen hDraws)

theorem Shown.cycles (hShown : Shown history events machine) (limit : Nat)
    (report : FrameReport) :
    Shown (history ++ (machine.cycleStarts limit).flatMap Machine.drawn) events
      (machine.cycles limit report).2 := by
  induction limit generalizing history machine report with
  | zero =>
    rw [Machine.cycleStarts, List.flatMap_nil, List.append_nil]
    exact hShown
  | succ limit ih =>
    rcases machine.cycleEnds_or with hEnds | ⟨outcome, hGoesOn, hResult⟩
    · rw [Machine.cycles_snd_of_cycleEnds hEnds, Machine.cycleStarts_of_cycleEnds hEnds,
        List.flatMap_cons, List.flatMap_nil, List.append_nil]
      exact hShown.step
    · rw [Machine.cycles_of_ok hGoesOn hResult, Machine.cycleStarts_of_ok hGoesOn hResult,
        List.flatMap_cons, ← List.append_assoc]
      exact ih hShown.step _

theorem Shown.quiet (hShown : Shown history events machine) {action : Machine.Action}
    (hMoments : machine.moments action = [])
    (hRedraw : (machine.act action).2.redraw = machine.redraw)
    (hScreen : (machine.act action).2.screen = machine.screen) :
    Shown (history ++ machine.moments action) events (machine.act action).2 := by
  rw [hMoments, List.append_nil]
  exact hShown.of_same hRedraw hScreen

/-- What a host does to the machine between frames. -/
theorem Shown.operation (hShown : Shown history events machine) {action : Machine.Action}
    (hOrdinary : action.isOrdinary) :
    Shown (history ++ machine.moments action) events (machine.act action).2 := by
  cases action with
  | step => exact hShown.step
  | reset => exact Shown.of_change nofun rfl
  | load bytes =>
    obtain ⟨memory, hLoaded⟩ := machine.act_load bytes
    exact hShown.quiet rfl (by rw [hLoaded]) (by rw [hLoaded])
  | loadProgram program =>
    obtain ⟨memory, name, hLoaded⟩ := machine.act_loadProgram program
    exact hShown.quiet rfl (by rw [hLoaded]) (by rw [hLoaded])
  | tick | setKey | setKeys => exact hShown.quiet rfl rfl rfl
  | takeRedraw | execute => contradiction

theorem screens_endFrame (session : Session) (report : FrameReport) (machine : Machine) :
    Event.screens (session.endFrame report machine).events =
      if machine.redraw then [machine.screen] else [] := by
  simp [endFrame, Machine.tick, Machine.takeRedraw]

/-- At the end of a frame the screen is shown if it is stale, and not otherwise. -/
theorem Shown.endFrame (hShown : Shown history events machine) (session : Session)
    (report : FrameReport) :
    Shown
      (history ++ (Event.screens (session.endFrame report machine).events).map fun _ => .shown)
      (events ++ (session.endFrame report machine).events)
      (session.endFrame report machine).session.machine := by
  have hScreens := session.screens_endFrame report machine
  cases hRedraw : machine.redraw with
  | true =>
    rw [hRedraw, if_pos rfl] at hScreens
    constructor
    · rw [hScreens, List.map_singleton, Moment.stale_concat]
      exact iff_of_false nofun (fun hShown => hShown rfl)
    · intro _
      rw [Event.lastScreen_append, hScreens]
      rfl
  | false =>
    rw [hRedraw, if_neg Bool.false_ne_true] at hScreens
    constructor
    · rw [hScreens, List.map_nil, List.append_nil, ← hShown.redraw, hRedraw]
      rfl
    · intro _
      rw [Event.lastScreen_append, hScreens]
      exact hShown.screen hRedraw

/-- The two ways a frame can end, with the history up to the end of its cycles. -/
theorem Shown.frame_cases {session : Session} (hShown : Shown history events session.machine)
    (reading : Levels) :
    ∃ machine, Shown (history ++ session.cycleMoments reading) events machine ∧
      ((∃ report, session.frame reading = session.endFrame report machine) ∨
        ∃ fault,
          session.frame reading = ⟨.error fault, { session with machine := machine }, []⟩) := by
  have hKeys : Shown history events (session.machine.setKeys reading) := hShown.of_same rfl rfl
  have hCycles := hKeys.cycles session.pace.cyclesPerFrame .empty
  rcases session.frame_cases reading with ⟨report, machine, hEnd, hFrame⟩ |
    ⟨fault, machine, hEnd, hFrame⟩
  · rw [hEnd] at hCycles
    exact ⟨machine, hCycles, Or.inl ⟨report, hFrame⟩⟩
  · rw [hEnd] at hCycles
    exact ⟨machine, hCycles, Or.inr ⟨fault, hFrame⟩⟩

theorem Shown.frame {session : Session} (hShown : Shown history events session.machine)
    (reading : Levels) :
    Shown (history ++ session.frameMoments reading) (events ++ (session.frame reading).events)
      (session.frame reading).session.machine := by
  rw [frameMoments, ← List.append_assoc]
  obtain ⟨machine, hCycles, ⟨report, hFrame⟩ | ⟨fault, hFrame⟩⟩ := hShown.frame_cases reading
  · rw [hFrame]
    exact hCycles.endFrame session report
  · rw [hFrame]
    show Shown (history ++ session.cycleMoments reading ++ []) (events ++ []) machine
    rw [List.append_nil, List.append_nil]
    exact hCycles

theorem Shown.frames {session : Session} (hShown : Shown history events session.machine)
    (readings : Nat → Levels) (count : Nat) :
    Shown (history ++ session.framesMoments readings count)
      (events ++ (session.after (frameActions readings count)).1)
      (session.after (frameActions readings count)).2.machine := by
  induction count generalizing session history events readings with
  | zero => simpa [framesMoments, frameActions, after] using hShown
  | succ count ih =>
    rw [framesMoments, frameActions_succ, ← List.append_assoc]
    simp only [after, act, ← List.append_assoc]
    exact ih (hShown.frame (readings 0)) _

/-- Every action of a host keeps to the history. -/
theorem Shown.act {session : Session} (hShown : Shown history events session.machine)
    {action : Action} (hOrdinary : action.isOrdinary) :
    Shown (history ++ session.moments action) (events ++ (session.act action).2.1)
      (session.act action).2.2.machine := by
  cases action with
  | frame reading => exact hShown.frame reading
  | machine action =>
    show Shown (history ++ session.machine.moments action) (events ++ []) _
    rw [List.append_nil]
    exact hShown.operation hOrdinary
  | run readings limit =>
    -- the silence at the end of the run shows nothing
    have hFrames := hShown.frames readings (session.frames readings limit).frames
    rw [session.after_frameActions readings limit] at hFrames
    refine ⟨hFrames.redraw, fun hClear => ?_⟩
    show Event.lastScreen (events ++ (_ ++ Event.tone _ false)) = _
    rw [← List.append_assoc, Event.lastScreen_append, Event.screens_tone]
    exact hFrames.screen hClear

theorem Shown.after {session : Session} (hShown : Shown history events session.machine)
    {actions : List Action} (hOrdinary : ∀ action ∈ actions, action.isOrdinary) :
    Shown (history ++ session.history actions) (events ++ (session.after actions).1)
      (session.after actions).2.machine := by
  induction actions generalizing session history events with
  | nil => simpa [Session.history, Session.after] using hShown
  | cons action actions ih =>
    have hFirst := hShown.act (hOrdinary action List.mem_cons_self)
    have hRest := ih hFirst fun later hMem => hOrdinary later (List.mem_cons_of_mem _ hMem)
    rw [List.append_assoc, List.append_assoc] at hRest
    exact hRest

theorem shown_start (entropy : Entropy) (pace : Pace) :
    Shown [.reset] [] (start (Machine.fresh entropy) pace).machine := by
  show Shown ([] ++ [.reset]) [] (start (Machine.fresh entropy) pace).machine
  exact Shown.of_change nofun rfl

/-- At every point of a session on a new machine, what the host showed last is on the
screen unless the machine remembers that it has to be shown.  So after a frame that got
through, the last screen that was shown is the one there is; such a frame shows it once
if it was drawn on or reset since it was last shown, and not at all otherwise.  A frame
that fails shows nothing, and what had to be shown before it or because of it still has to
be shown.  The points in the middle of a run are among these, since a run is its frames one
after the other. -/
theorem shows_every_change (entropy : Entropy) (pace : Pace) {actions : List Action}
    (hOrdinary : ∀ action ∈ actions, action.isOrdinary) :
    let begun := start (Machine.fresh entropy) pace
    let events := (begun.after actions).1
    let session := (begun.after actions).2
    (session.machine.redraw = false →
        Event.lastScreen events = some session.machine.screen) ∧
      (∀ reading,
        let frame := session.frame reading
        let history := .reset :: begun.history actions ++ session.cycleMoments reading
        (∀ report, frame.result = .ok report →
          Event.lastScreen (events ++ frame.events) = some frame.session.machine.screen ∧
            (Moment.Stale history →
              Event.screens frame.events = [frame.session.machine.screen]) ∧
            (¬ Moment.Stale history → Event.screens frame.events = [])) ∧
        ∀ fault, frame.result = .error fault →
          Event.screens frame.events = [] ∧
            (session.machine.redraw = true → frame.session.machine.redraw = true) ∧
            (Moment.Stale history → frame.session.machine.redraw = true)) ∧
      ∀ readings limit,
        session.after [.run readings limit] =
          session.after
            (frameActions readings (session.run readings limit).frames ++
              [.run readings 0]) := by
  intro begun events session
  have hShown : Shown (.reset :: begun.history actions) events session.machine :=
    (shown_start entropy pace).after hOrdinary
  refine ⟨hShown.screen, fun reading => ?_, session.after_run⟩
  intro frame history
  obtain ⟨machine, hCycles, ⟨report, hFrame⟩ | ⟨fault, hFrame⟩⟩ := hShown.frame_cases reading
  · have hScreens := session.screens_endFrame report machine
    simp only [frame, hFrame]
    refine ⟨fun _ _ => ⟨(hCycles.endFrame session report).screen rfl, ?_, ?_⟩, nofun⟩
    · intro hStale
      rw [hScreens, if_pos (hCycles.redraw.mpr hStale)]
      rfl
    · intro hFresh
      rw [hScreens, if_neg (mt hCycles.redraw.mp hFresh)]
  · simp only [frame, hFrame]
    refine ⟨nofun, fun _ _ => ⟨rfl, ?_, hCycles.redraw.mpr⟩⟩
    intro hPending
    have hStale := (hShown.redraw.mp hPending).append (session.shown_not_mem_cycleMoments reading)
    exact hCycles.redraw.mpr hStale

/-- A program that clears the screen and then returns without a call: the screen is shown
by the first frame, and the second one fails. -/
theorem shows_every_change_cleared :
    ∃ events session,
      (start (Machine.fresh (Entropy.ofWords fun _ => 0)) ⟨60, 60⟩).after
          [.machine (.load [0x00, 0xE0, 0x00, 0xEE]), .frame Levels.released] =
        (events, session) ∧
      Event.lastScreen events = some session.machine.screen ∧
      (∃ fault, (session.frame Levels.released).result = .error fault) ∧
      Event.screens (session.frame Levels.released).events = [] := by
  have hOrdinary : ∀ action ∈
      ([.machine (.load [0x00, 0xE0, 0x00, 0xEE]), .frame Levels.released] : List Action),
      action.isOrdinary := by
    decide
  have hAll := shows_every_change (Entropy.ofWords fun _ => 0) ⟨60, 60⟩ hOrdinary
  dsimp only at hAll
  generalize hAfter : (start (Machine.fresh (Entropy.ofWords fun _ => 0)) ⟨60, 60⟩).after
    [.machine (.load [0x00, 0xE0, 0x00, 0xEE]), .frame Levels.released] = reached at hAll
  obtain ⟨events, session⟩ := reached
  obtain ⟨hCurrent, hFrames, -⟩ := hAll
  have hSession : _ = session := congrArg Prod.snd hAfter
  have hRedraw : session.machine.redraw = false := by
    rw [← hSession]
    decide +kernel
  have hReport : (session.frame Levels.released).result.toOption.isNone := by
    rw [← hSession]
    decide +kernel
  cases hResult : (session.frame Levels.released).result with
  | error fault =>
    exact ⟨events, session, rfl, hCurrent hRedraw, ⟨fault, hResult⟩,
      ((hFrames Levels.released).2 fault hResult).1⟩
  | ok report =>
    rw [hResult] at hReport
    exact absurd hReport nofun

end Session
end ChipEight
