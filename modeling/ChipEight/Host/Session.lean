import ChipEight.Host.Frame
import ChipEight.Host.Pace
import ChipEight.Machine.Action

/-!
# A host session

A session is a machine together with its pace and with what the host last did about
the tone.  It runs the machine in frames.  In every frame the host

* reads the levels of the keys and reports them to the machine,
* runs the cycles of the frame,
* counts the countdowns down by one,
* shows the screen if it changed, and
* starts or stops the tone if it is not as the sound countdown wants it.

A frame in which the machine halts ends at once: the last three do not happen.
What the host does to its devices is a list of events.

* `Session.frame` is a single frame.
* `Session.run` is a run of frames, which ends when the host is asked to stop or
  when the machine halts, and always with the tone off.
-/

namespace ChipEight

/-- What the host does to its devices. -/
inductive Event where
  | present (screen : Screen)
  | play
  | pause
deriving DecidableEq

namespace Event

/-- Starts or stops the tone, if it is not yet as it should be. -/
def tone (playing wanted : Bool) : List Event :=
  if playing = wanted then [] else if wanted then [.play] else [.pause]

/-- Shows the screen, if it changed. -/
def presentIf (changed : Bool) (screen : Screen) : List Event :=
  if changed then [.present screen] else []

end Event

/-- A machine that is run by a host. -/
structure Session where
  machine : Machine
  pace : Pace
  /-- Whether the tone is on. -/
  playing : Bool

/-- What a frame results in. -/
structure FrameResult where
  /-- The summary of the frame, or the fault that ended it. -/
  result : Except Fault FrameReport
  session : Session
  events : List Event

/-- What a run of frames results in. -/
structure RunResult where
  /-- How often the host was asked whether to stop. -/
  polls : Nat
  frames : Nat
  /-- The fault that ended the run, if one did. -/
  fault : Option Fault
  session : Session
  events : List Event

namespace Session

/-- A session on a machine, with the tone off. -/
def start (machine : Machine) (pace : Pace) : Session := ⟨machine, pace, false⟩

/-- The end of a frame after its cycles: a tick, the screen and the tone. -/
def endFrame (session : Session) (report : FrameReport) (machine : Machine) : FrameResult :=
  let ticked := machine.tick
  let taken := ticked.takeRedraw
  let sounding := ticked.isSounding
  { result := .ok report
    session := { session with machine := taken.2, playing := sounding }
    events := Event.presentIf taken.1 ticked.screen ++ Event.tone session.playing sounding }

/-- A frame in which the host reads the given key levels. -/
def frame (session : Session) (reading : Levels) : FrameResult :=
  match (session.machine.setKeys reading).cycles session.pace.cyclesPerFrame .empty with
  | (.ok report, machine) => session.endFrame report machine
  | (.error fault, machine) => ⟨.error fault, { session with machine := machine }, []⟩

/-- Runs frames until the host, which is asked before each of them, wants to stop
after `limit` frames, or until the machine halts. -/
def frames (session : Session) (readings : Nat → Levels) : Nat → RunResult
  | 0 => ⟨1, 0, none, session, []⟩
  | limit + 1 =>
    let first := session.frame (readings 0)
    match first.result with
    | .error fault => ⟨1, 1, some fault, first.session, first.events⟩
    | .ok _ =>
      -- the host reads its keys once in every frame
      let rest := first.session.frames (fun later => readings (later + 1)) limit
      { rest with
        polls := rest.polls + 1
        frames := rest.frames + 1
        events := first.events ++ rest.events }

def silence (session : Session) : List Event × Session :=
  (Event.tone session.playing false, { session with playing := false })

/-- A run of frames that leaves the tone off. -/
def run (session : Session) (readings : Nat → Levels) (limit : Nat) : RunResult :=
  let done := session.frames readings limit
  let silent := done.session.silence
  { done with session := silent.2, events := done.events ++ silent.1 }

inductive Action where
  | frame (reading : Levels)
  /-- Runs frames until the host wants to stop. -/
  | run (readings : Nat → Levels) (limit : Nat)
  /-- Does something to the machine between frames. -/
  | machine (action : Machine.Action)

inductive Reply where
  /-- The summary of a frame, or the fault that ended it. -/
  | frame (result : Except Fault FrameReport)
  /-- The polls and frames of a run, and the fault that ended it. -/
  | run (polls frames : Nat) (fault : Option Fault)
  | machine (reply : Machine.Reply)

/-- The answer to an action, what the host did to its devices, and the session after
it. -/
def act (session : Session) : Action → Reply × List Event × Session
  | .frame reading =>
    let done := session.frame reading
    (.frame done.result, done.events, done.session)
  | .run readings limit =>
    let done := session.run readings limit
    (.run done.polls done.frames done.fault, done.events, done.session)
  | .machine action =>
    let done := session.machine.act action
    (.machine done.1, [], { session with machine := done.2 })

/-- Everything that the host did during a sequence of actions, and the session after
it. -/
def after (session : Session) : List Action → List Event × Session
  | [] => ([], session)
  | action :: actions =>
    let first := session.act action
    let rest := first.2.2.after actions
    (first.2.1 ++ rest.1, rest.2)

end Session
end ChipEight
