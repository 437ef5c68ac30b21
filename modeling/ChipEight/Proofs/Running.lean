import ChipEight.Proofs.Stepping

/-!
# Runs of host operations

A host drives the machine by a sequence of operations, and a property of every such
run is shown from what one operation does.  This module provides the two ends of that
argument:

* `Machine.run_preserves` — what each allowed operation preserves, a whole run
  preserves;
* `Machine.Reachable` — the states that a new machine can be driven into, with their
  induction rule `Machine.Reachable.holds`;
* `Machine.act_of_isSteady` — between two resets, only a step touches the fields that
  decide which instruction comes next.

Executing an instruction that was not fetched is an operation for tests only, and no
host does it.
-/

namespace ChipEight
namespace Machine

namespace Action

/-- What a host can do: anything but execute an instruction of its own choice. -/
def isHost : Action → Bool
  | .execute _ => false
  | _ => true

/-- What a host can do between two resets. -/
def isSteady : Action → Bool
  | .reset | .execute _ => false
  | _ => true

theorem isHost_of_isSteady {action : Action} (hSteady : action.isSteady) :
    action.isHost := by
  cases action <;> first | rfl | contradiction

end Action

/-- What every allowed operation preserves holds after every run of them. -/
theorem run_preserves {allowed : Action → Bool} {Holds : Machine → Prop}
    (hAct : ∀ machine action, allowed action → Holds machine → Holds (machine.act action).2)
    {machine : Machine} {actions : List Action} (hAllowed : ∀ action ∈ actions, allowed action)
    (hStart : Holds machine) : Holds (machine.run actions).2 := by
  induction actions generalizing machine with
  | nil => exact hStart
  | cons action actions ih =>
    have hFirst := hAct machine action (hAllowed action List.mem_cons_self) hStart
    exact ih (fun later hLater => hAllowed later (List.mem_cons_of_mem _ hLater)) hFirst

/-- A run with one operation more ends where that operation leads from the end of the
shorter run. -/
theorem run_concat (machine : Machine) (actions : List Action) (action : Action) :
    (machine.run (actions ++ [action])).2 = ((machine.run actions).2.act action).2 := by
  rw [run_append]
  rfl

/-- A state that a host can drive a new machine into. -/
def Reachable (machine : Machine) : Prop :=
  ∃ (entropy : Entropy) (actions : List Action),
    (∀ action ∈ actions, action.isHost) ∧ ((fresh entropy).run actions).2 = machine

/-- What holds of a new machine and is preserved by every host operation holds of
every reachable state. -/
theorem Reachable.holds {Holds : Machine → Prop} (hFresh : ∀ entropy, Holds (fresh entropy))
    (hAct : ∀ machine action, action.isHost → Holds machine → Holds (machine.act action).2)
    {machine : Machine} (hReachable : machine.Reachable) : Holds machine := by
  obtain ⟨entropy, actions, hHost, rfl⟩ := hReachable
  exact run_preserves hAct hHost (hFresh entropy)

/-! ## Operations between two resets -/

theorem sameControl_loaded {machine : Machine} {result : Except ProgramTooLarge Machine}
    (hResult : ∀ next, result = .ok next → machine.SameControl next) :
    machine.SameControl (machine.loaded result).2 := by
  cases result with
  | ok next => exact hResult next rfl
  | error problem => exact ⟨rfl, rfl, rfl, rfl, rfl⟩

theorem sameControl_load {machine next : Machine} {bytes : List UInt8}
    (hLoad : machine.load bytes = .ok next) : machine.SameControl next := by
  unfold load at hLoad
  split at hLoad
  · contradiction
  · cases hLoad
    exact ⟨rfl, rfl, rfl, rfl, rfl⟩

theorem sameControl_loadProgram {machine next : Machine} {program : Program}
    (hLoad : machine.loadProgram program = .ok next) : machine.SameControl next := by
  unfold loadProgram at hLoad
  split at hLoad
  · next loaded hBytes =>
    have hSame := sameControl_load hBytes
    cases hLoad
    exact ⟨hSame.opcode, hSame.counter, hSame.stack, hSame.awaiting, hSame.fault⟩
  · contradiction

/-- A host runs a step, resets the machine, or leaves alone everything that decides
which instruction comes next. -/
theorem act_of_isHost (machine : Machine) {action : Action} (hHost : action.isHost) :
    action = .step ∨ action = .reset ∨ machine.SameControl (machine.act action).2 := by
  cases action with
  | step => exact Or.inl rfl
  | reset => exact Or.inr (Or.inl rfl)
  | load bytes =>
    exact Or.inr (Or.inr (sameControl_loaded fun _ hLoad => sameControl_load hLoad))
  | loadProgram program =>
    exact Or.inr (Or.inr (sameControl_loaded fun _ hLoad => sameControl_loadProgram hLoad))
  | tick | setKey | setKeys | takeRedraw =>
    exact Or.inr (Or.inr ⟨rfl, rfl, rfl, rfl, rfl⟩)
  | execute => contradiction

/-- Between two resets it runs a step or leaves all of that alone. -/
theorem act_of_isSteady (machine : Machine) {action : Action} (hSteady : action.isSteady) :
    action = .step ∨ machine.SameControl (machine.act action).2 := by
  rcases machine.act_of_isHost (Action.isHost_of_isSteady hSteady) with hStep | hReset | hSame
  · exact Or.inl hStep
  · rw [hReset] at hSteady
    contradiction
  · exact Or.inr hSame

end Machine
end ChipEight
