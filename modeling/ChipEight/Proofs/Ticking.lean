import Mathlib.Logic.Function.Iterate
import ChipEight.Proofs.Bystanders
import ChipEight.Proofs.Running

/-!
# Ticks between the steps

Three instructions are about the countdowns, and every other step goes by them: it neither
reads them nor changes them, whether it executes something, passes an opcode over, blocks or
fails.  So it makes no difference whether the host ticks before such a step or after it.  Over
a whole run the ticks can be collected at its end, wherever they fell.

* `Machine.UsesTimers` — the next step executes one of the three opcodes;
* `Machine.ticks`, `Machine.step_ticks` — ticks before a step that does not;
* `Machine.SparesTimers` — no step of a run does;
* `Machine.answers` — what a host is told, the ticks apart;
* `Machine.ticks_commute_with_steps` — the law for one step and for whole runs.
-/

namespace ChipEight
namespace Machine

variable {machine : Machine}

/-- The next step executes `FX07`, `FX15` or `FX18`. -/
def UsesTimers (machine : Machine) : Prop :=
  machine.Ready ∧ machine.counter.toNat + 1 < 4096 ∧
    ∃ x : Register, machine.word = 0xF007 + 0x100 * x.val ∨
      machine.word = 0xF015 + 0x100 * x.val ∨ machine.word = 0xF018 + 0x100 * x.val

instance (machine : Machine) : Decidable machine.UsesTimers :=
  inferInstanceAs (Decidable (_ ∧ _ ∧ _))

/-- These are the opcodes of the instructions that use a countdown. -/
theorem usesTimers_of_executes {instruction : Instruction Register}
    (hExecutes : machine.Executes instruction) (hUses : instruction.usesTimers = true) :
    machine.UsesTimers := by
  obtain ⟨opcode, hFetches, hDecode⟩ := hExecutes
  have hWord : instruction.encode = machine.word :=
    (Instruction.encode_of_decode? hDecode).2.trans hFetches.word
  refine ⟨hFetches.toReady, hFetches.inside, ?_⟩
  cases instruction with
  | readDelay x | setDelay x | setSound x =>
    refine ⟨x, ?_⟩
    simp only [Instruction.encode, Instruction.registerConstant] at hWord
    omega
  | _ => contradiction

/-- A step that uses no countdown sees no change to them. -/
theorem unseen_of_not_usesTimers {change : Aside} (hEntropy : change.entropy = id)
    (hSpares : ¬ machine.UsesTimers) {instruction : Instruction Register}
    (hExecutes : machine.Executes instruction) : change.Unseen instruction where
  timers hUses := absurd (usesTimers_of_executes hExecutes hUses) hSpares
  entropy _ := hEntropy

/-! ## One operation -/

/-- One tick, as a change beside the flow of the program. -/
def ticking : Aside where
  delay := Countdown.tick
  sound := Countdown.tick

/-- The operation is no step that uses a countdown. -/
def Spares (machine : Machine) (action : Action) : Prop :=
  action = .step → ¬ machine.UsesTimers

theorem passes_of_spares {action : Action} (hSteady : action.isSteady)
    (hSpares : machine.Spares action) : ticking.Passes machine action := by
  cases action with
  | step => exact fun instruction => unseen_of_not_usesTimers rfl (hSpares rfl)
  | tick => exact ⟨fun _ => rfl, fun _ => rfl⟩
  | loadProgram => exact rfl
  | load | setKey | setKeys | takeRedraw => exact trivial
  | reset | execute => contradiction

/-- A tick before such an operation can as well come after it. -/
theorem act_tick {action : Action} (hSteady : action.isSteady)
    (hSpares : machine.Spares action) :
    machine.tick.act action = ((machine.act action).1, (machine.act action).2.tick) :=
  machine.act_aside rfl (passes_of_spares hSteady hSpares)

/-- The operation that ticks. -/
def Action.isTick : Action → Bool
  | .tick => true
  | _ => false

theorem Action.isTick_iff {action : Action} : action.isTick = true ↔ action = .tick := by
  cases action <;> simp [isTick]

/-- Nothing but a tick changes the countdowns. -/
theorem timers_act {action : Action} (hSteady : action.isSteady) (hNoTick : action.isTick = false)
    (hSpares : machine.Spares action) :
    (machine.act action).2.delay = machine.delay ∧
      (machine.act action).2.sound = machine.sound := by
  -- a change that forgets the old values goes unseen, so the old values are still there
  let keeping : Aside :=
    { delay := fun _ => machine.delay, sound := fun _ => machine.sound }
  have hPasses : keeping.Passes machine action := by
    cases action with
    | step => exact fun instruction => unseen_of_not_usesTimers rfl (hSpares rfl)
    | loadProgram => exact rfl
    | load | setKey | setKeys | takeRedraw => exact trivial
    | tick | reset | execute => contradiction
  have hSame : (machine.act action).2 = (machine.act action).2.aside keeping :=
    congrArg Prod.snd (machine.act_aside rfl hPasses)
  exact ⟨(congrArg Machine.delay hSame).trans rfl, (congrArg Machine.sound hSame).trans rfl⟩

/-! ## Several ticks -/

/-- The machine after a number of ticks. -/
def ticks (count : Nat) (machine : Machine) : Machine := tick^[count] machine

theorem ticks_succ (count : Nat) (machine : Machine) :
    machine.ticks (count + 1) = machine.tick.ticks count := rfl

theorem usesTimers_tick : machine.tick.UsesTimers ↔ machine.UsesTimers :=
  and_congr_left fun _ => machine.ready_aside ticking

/-- Ticks before a step that uses no countdown can as well come after it. -/
theorem step_ticks (hSpares : ¬ machine.UsesTimers) (count : Nat) :
    (machine.ticks count).step = (machine.step.1, machine.step.2.ticks count) := by
  induction count generalizing machine with
  | zero => rfl
  | succ count ih =>
    have hFirst : machine.tick.step = (machine.step.1, machine.step.2.tick) := by
      show (machine.aside ticking).step = (machine.step.1, machine.step.2.aside ticking)
      exact machine.step_aside rfl fun _ => unseen_of_not_usesTimers rfl hSpares
    rw [ticks_succ, ih (mt usesTimers_tick.mp hSpares), hFirst]
    rfl

/-- Ticks change the countdowns and nothing else. -/
theorem ticks_eq (count : Nat) (machine : Machine) :
    machine.ticks count =
      { machine with
        delay := machine.delay.ticks count
        sound := machine.sound.ticks count } := by
  induction count generalizing machine with
  | zero => rfl
  | succ count ih => exact ih machine.tick

theorem timers_ticks (count : Nat) (machine : Machine) :
    (machine.ticks count).delay = machine.delay.ticks count ∧
      (machine.ticks count).sound = machine.sound.ticks count := by
  rw [ticks_eq]
  exact ⟨rfl, rfl⟩

/-! ## Whole runs -/

/-- No step of a run uses a countdown. -/
def SparesTimers (machine : Machine) : List Action → Prop
  | [] => True
  | action :: actions => machine.Spares action ∧ (machine.act action).2.SparesTimers actions

/-- The operations without the ticks among them. -/
def tickless (actions : List Action) : List Action :=
  actions.filter fun action => !action.isTick

/-- The answers to the operations of a run, without those to ticks. -/
def answers (machine : Machine) (actions : List Action) : List Reply :=
  ((actions.zip (machine.run actions).1).filter fun entry => !entry.1.isTick).map Prod.snd

variable {actions : List Action}

/-- A tick before a run that uses no countdown can as well come after it. -/
theorem run_tick (hSteady : ∀ action ∈ actions, action.isSteady)
    (hSpares : machine.SparesTimers actions) :
    machine.tick.run actions = ((machine.run actions).1, (machine.run actions).2.tick) := by
  induction actions generalizing machine with
  | nil => rfl
  | cons action actions ih =>
    obtain ⟨hAction, hLater⟩ := List.forall_mem_cons.mp hSteady
    simp only [run, act_tick hAction hSpares.1, ih hLater hSpares.2]

theorem sparesTimers_tick (hSteady : ∀ action ∈ actions, action.isSteady) :
    machine.tick.SparesTimers actions ↔ machine.SparesTimers actions := by
  induction actions generalizing machine with
  | nil => exact Iff.rfl
  | cons action actions ih =>
    obtain ⟨hAction, hLater⟩ := List.forall_mem_cons.mp hSteady
    have hFirst : machine.tick.Spares action ↔ machine.Spares action :=
      imp_congr_right fun _ => not_congr usesTimers_tick
    simp only [SparesTimers, hFirst]
    refine and_congr_right fun hSpares => ?_
    rw [act_tick hAction hSpares]
    exact ih hLater

theorem timers_run (hSteady : ∀ action ∈ actions, action.isSteady)
    (hNoTick : ∀ action ∈ actions, action.isTick = false)
    (hSpares : machine.SparesTimers actions) :
    (machine.run actions).2.delay = machine.delay ∧
      (machine.run actions).2.sound = machine.sound := by
  induction actions generalizing machine with
  | nil => exact ⟨rfl, rfl⟩
  | cons action actions ih =>
    obtain ⟨hAction, hLater⟩ := List.forall_mem_cons.mp hSteady
    obtain ⟨hOther, hOthers⟩ := List.forall_mem_cons.mp hNoTick
    obtain ⟨hDelay, hSound⟩ := timers_act hAction hOther hSpares.1
    obtain ⟨hLastDelay, hLastSound⟩ := ih hLater hOthers hSpares.2
    exact ⟨hLastDelay.trans hDelay, hLastSound.trans hSound⟩

theorem isSteady_tickless (hSteady : ∀ action ∈ actions, action.isSteady) :
    ∀ action ∈ tickless actions, action.isSteady :=
  fun action hMem => hSteady action (List.mem_filter.mp hMem).1

theorem isSteady_of_tickless (hKept : ∀ action ∈ tickless actions, action.isSteady) :
    ∀ action ∈ actions, action.isSteady := by
  intro action hMem
  cases hTick : action.isTick with
  | true =>
    obtain rfl := Action.isTick_iff.mp hTick
    rfl
  | false => exact hKept action (List.mem_filter.mpr ⟨hMem, by rw [hTick]; rfl⟩)

theorem tickless_cons {action : Action} (hNoTick : action.isTick = false) :
    tickless (action :: actions) = action :: tickless actions :=
  List.filter_cons_of_pos (by rw [hNoTick]; rfl)

theorem answers_cons {action : Action} (hNoTick : action.isTick = false) :
    machine.answers (action :: actions) =
      (machine.act action).1 :: (machine.act action).2.answers actions := by
  simp only [answers, run, List.zip_cons_cons, List.filter_cons, hNoTick, Bool.not_false, if_true,
    List.map_cons]

/-- The ticks of a run make no difference to which opcodes its steps execute. -/
theorem sparesTimers_tickless (hSteady : ∀ action ∈ actions, action.isSteady) :
    machine.SparesTimers (tickless actions) ↔ machine.SparesTimers actions := by
  induction actions generalizing machine with
  | nil => exact Iff.rfl
  | cons action actions ih =>
    obtain ⟨-, hLater⟩ := List.forall_mem_cons.mp hSteady
    cases hTick : action.isTick with
    | true =>
      obtain rfl := Action.isTick_iff.mp hTick
      have hFirst : machine.Spares .tick := nofun
      rw [SparesTimers, and_iff_right hFirst]
      exact (sparesTimers_tick (isSteady_tickless hLater)).symm.trans (ih hLater)
    | false => rw [tickless_cons hTick, SparesTimers, SparesTimers, ih hLater]

/-- A run that uses no countdown ends as it does without its ticks, but for as many ticks
afterwards, and the host is told the same. -/
theorem run_tickless (hSteady : ∀ action ∈ actions, action.isSteady)
    (hSpares : machine.SparesTimers actions) :
    machine.answers actions = (machine.run (tickless actions)).1 ∧
      (machine.run actions).2 =
        (machine.run (tickless actions)).2.ticks (actions.countP Action.isTick) := by
  induction actions generalizing machine with
  | nil => exact ⟨rfl, rfl⟩
  | cons action actions ih =>
    obtain ⟨-, hLater⟩ := List.forall_mem_cons.mp hSteady
    obtain ⟨hAnswers, hLast⟩ := ih hLater hSpares.2
    cases hTick : action.isTick with
    | true =>
      obtain rfl := Action.isTick_iff.mp hTick
      have hKept := isSteady_tickless hLater
      have hSparesKept : machine.SparesTimers (tickless actions) :=
        (sparesTimers_tick hKept).mp ((sparesTimers_tickless hLater).mpr hSpares.2)
      -- the tick at the beginning moves behind the run, where it is one more
      have hMoved : (machine.act .tick).2.run (tickless actions) = _ :=
        run_tick hKept hSparesKept
      rw [hMoved] at hAnswers hLast
      rw [List.countP_cons_of_pos rfl]
      exact ⟨hAnswers, hLast⟩
    | false =>
      rw [tickless_cons hTick, answers_cons hTick, hAnswers,
        List.countP_cons_of_neg (by rw [hTick]; exact Bool.false_ne_true)]
      exact ⟨rfl, hLast⟩

/-- Ticks in any places of a run that uses no countdown can as well come at its end. -/
theorem run_of_tickless {interleaved : List Action} (hTickless : tickless interleaved = actions)
    (hSteady : ∀ action ∈ actions, action.isSteady) (hSpares : machine.SparesTimers actions) :
    machine.answers interleaved = (machine.run actions).1 ∧
      (machine.run interleaved).2 =
        (machine.run actions).2.ticks (interleaved.countP Action.isTick) := by
  subst hTickless
  have hAll := isSteady_of_tickless hSteady
  exact run_tickless hAll ((sparesTimers_tickless hAll).mp hSpares)

/-- Ticks and steps commute.  Ticks before a step that executes none of the three opcodes can as
well come after it, whatever else the step does.  Over a run without such steps, between which
the host may do anything but reset the machine, it makes no difference where the ticks fall:
the same opcodes are executed as without them, the host is told the same, and the machine ends
where it does if the ticks come at the end.  Then the countdowns have lost one with each of
them, down to zero and not below. -/
theorem ticks_commute_with_steps :
    (∀ (machine : Machine) (count : Nat), ¬ machine.UsesTimers →
      (machine.ticks count).step = (machine.step.1, machine.step.2.ticks count)) ∧
    ∀ (machine : Machine) (actions interleaved : List Action),
      (∀ action ∈ interleaved, action.isSteady) → tickless interleaved = actions →
        let count := interleaved.countP Action.isTick
        (machine.SparesTimers interleaved ↔ machine.SparesTimers actions) ∧
          (machine.SparesTimers actions →
            machine.answers interleaved = (machine.run actions).1 ∧
              (machine.run interleaved).2 = (machine.run actions).2.ticks count ∧
              (machine.run interleaved).2.delay.value.toNat =
                machine.delay.value.toNat - count ∧
              (machine.run interleaved).2.sound.value.toNat =
                machine.sound.value.toNat - count) := by
  refine ⟨fun machine count hSpares => step_ticks hSpares count, ?_⟩
  rintro machine _ interleaved hSteady rfl count
  refine ⟨(sparesTimers_tickless hSteady).symm, fun hSpares => ?_⟩
  obtain ⟨hAnswers, hLast⟩ := run_tickless hSteady ((sparesTimers_tickless hSteady).mp hSpares)
  have hNoTick : ∀ action ∈ tickless interleaved, action.isTick = false := by
    intro action hMem
    simpa using (List.mem_filter.mp hMem).2
  obtain ⟨hDelay, hSound⟩ := timers_run (isSteady_tickless hSteady) hNoTick hSpares
  obtain ⟨hDelayTicks, hSoundTicks⟩ := timers_ticks count (machine.run (tickless interleaved)).2
  refine ⟨hAnswers, hLast, ?_, ?_⟩
  · rw [hLast, hDelayTicks, Countdown.toNat_ticks, hDelay]
  · rw [hLast, hSoundTicks, Countdown.toNat_ticks, hSound]

/-- Three ticks between the steps of a program that waits for a key and meets an unknown opcode,
while the delay countdown has more than three to go and the sound countdown has less. -/
theorem ticks_commute_with_steps_waiting :
    let start := { fresh (Entropy.ofWords fun _ => 0) with delay := ⟨9⟩, sound := ⟨2⟩ }
    let loaded := (start.run [.load [0xF5, 0x0A, 0xFF, 0xFF]]).2
    let actions : List Action := [.step, .setKey 7 true, .step, .load [0x61, 0x03], .step]
    let interleaved : List Action :=
      [.tick, .step, .tick, .setKey 7 true, .step, .load [0x61, 0x03], .tick, .step]
    (loaded.ticks 300).step = (loaded.step.1, loaded.step.2.ticks 300) ∧
      loaded.answers interleaved = (loaded.run actions).1 ∧
      (loaded.run interleaved).2 = (loaded.run actions).2.ticks 3 ∧
      (loaded.run interleaved).2.delay.value.toNat = 6 ∧
      (loaded.run interleaved).2.sound.value.toNat = 0 := by
  intro start loaded actions interleaved
  have hSpares : loaded.SparesTimers actions :=
    ⟨fun _ => by decide +kernel, nofun, fun _ => by decide +kernel, nofun,
      fun _ => by decide +kernel, trivial⟩
  obtain ⟨hStep, hRun⟩ := ticks_commute_with_steps
  obtain ⟨hAnswers, hLast, hDelay, hSound⟩ :=
    (hRun loaded actions interleaved (by decide) rfl).2 hSpares
  exact ⟨hStep loaded 300 (by decide +kernel), hAnswers, hLast, hDelay, hSound⟩

end Machine
end ChipEight
