import ChipEight.Proofs.Running

/-!
# Calls and returns

A call saves the address behind it and a return goes back to the latest address that
was saved.  Nothing else touches the saved addresses: not jumps, not what a program
writes into memory, and no operation of a host short of a reset.  So whatever runs
after a call, however deep its own calls nest, the caller's addresses lie untouched
below it, and the first time the stack is as low as before the call is right after the
return that belongs to it.

* `Machine.frame_act` — one operation leaves a frame in place, or is the return from
  it;
* `Machine.frame_run` — a run that never comes back to the depth of the caller leaves
  the frame in place;
* `Machine.return_restores_call` — the discipline over a whole run.

The stack is a list with the latest address first, so the frames below a machine are a
suffix of it.
-/

namespace ChipEight
namespace Machine

/-- During a run, its start and its end included, the stack is never `depth` high. -/
def StaysOff (machine : Machine) (depth : Nat) (actions : List Action) : Prop :=
  ∀ count ≤ actions.length, (machine.run (actions.take count)).2.stack.length ≠ depth

instance (machine : Machine) (depth : Nat) (actions : List Action) :
    Decidable (machine.StaysOff depth actions) :=
  inferInstanceAs (Decidable (∀ count ≤ actions.length,
    (machine.run (actions.take count)).2.stack.length ≠ depth))

theorem StaysOff.tail {machine : Machine} {depth : Nat} {action : Action}
    {actions : List Action} (hOff : machine.StaysOff depth (action :: actions)) :
    (machine.act action).2.StaysOff depth actions := by
  intro count hCount
  exact hOff (count + 1) (Nat.succ_le_succ hCount)

/-- A call saves the address behind it and goes to its target. -/
theorem step_of_call {machine : Machine} (hReady : machine.Ready)
    (hInside : machine.counter.toNat + 1 < 4096) (hCall : machine.word / 0x1000 = 0x2)
    (hRoom : machine.stack.length < stackLimit) :
    machine.step.2.stack = (machine.counter + 2) :: machine.stack := by
  have hEffect : (machine.recording machine.upcoming).effect
      (.call (Opcode.address machine.upcoming)) =
        Effect.quiet
          { machine.recording machine.upcoming with
            stack := (machine.counter + 2) :: machine.stack }
          (.jump (Opcode.address machine.upcoming)) := if_pos hRoom
  rw [step_of_steps (.executed (fetches_upcoming hReady hInside)
    (decode?_upcoming_call hCall) hEffect)]
  rfl

/-- An executed instruction leaves a frame in place, or it is a return from it. -/
theorem frame_flow {machine : Machine} {instruction : Instruction Register} {done : Effect}
    {address : UInt16} {saved : List UInt16} (hFlow : machine.Flow instruction done)
    (hFrame : (address :: saved) <:+ machine.stack) :
    (address :: saved) <:+ done.next.stack ∨
      (instruction = .ret ∧ machine.stack = address :: saved ∧
        done.next.stack = saved ∧ done.next.counter = address) := by
  cases hFlow with
  | @ret latest earlier hStack =>
    rw [hStack] at hFrame
    rcases List.suffix_cons_iff.mp hFrame with hTop | hBelow
    · obtain ⟨rfl, rfl⟩ := List.cons.inj hTop
      exact Or.inr ⟨rfl, hStack, rfl, rfl⟩
    · exact Or.inl hBelow
  | call hRoom => exact Or.inl (hFrame.trans (List.suffix_cons _ _))
  | jump | jumpOffset | wait => exact Or.inl hFrame
  | onward hSame hStep =>
    left
    show (address :: saved) <:+ done.machine.stack
    rw [hSame.stack]
    exact hFrame

/-- A step leaves a frame in place, or it executes the return from it. -/
theorem frame_step {machine : Machine} {address : UInt16} {saved : List UInt16}
    (hFrame : (address :: saved) <:+ machine.stack) :
    (address :: saved) <:+ machine.step.2.stack ∨
      (machine.Fetches 0x00EE ∧ machine.stack = address :: saved ∧
        machine.step.2.stack = saved ∧ machine.step.2.counter = address) := by
  have hSteps := machine.steps_step
  generalize machine.step.1 = result, machine.step.2 = next at hSteps
  cases hSteps with
  | @executed opcode instruction done hFetches hDecode hEffect =>
    rcases frame_flow (flow_of_effect hEffect) hFrame with hKept | ⟨rfl, hTop, hRest⟩
    · exact Or.inl hKept
    · have hOpcode : 0x00EE = opcode :=
        UInt16.toNat_inj.mp (Instruction.encode_of_decode? hDecode).2
      subst hOpcode
      exact Or.inr ⟨hFetches, hTop, hRest⟩
  | _ => exact Or.inl hFrame

/-- Between two resets an operation leaves a frame in place, or it is a step that
executes the return from it. -/
theorem frame_act {machine : Machine} {action : Action} {address : UInt16}
    {saved : List UInt16} (hSteady : action.isSteady)
    (hFrame : (address :: saved) <:+ machine.stack) :
    (address :: saved) <:+ (machine.act action).2.stack ∨
      (action = .step ∧ machine.Fetches 0x00EE ∧ machine.stack = address :: saved ∧
        (machine.act action).2.stack = saved ∧ (machine.act action).2.counter = address) := by
  rcases machine.act_of_isSteady hSteady with rfl | hSame
  · rcases frame_step hFrame with hKept | hReturn
    · exact Or.inl hKept
    · exact Or.inr ⟨rfl, hReturn⟩
  · left
    rw [hSame.stack]
    exact hFrame

/-- A run that never comes back to the depth of the caller leaves the frame in
place. -/
theorem frame_run {machine : Machine} {actions : List Action} {address : UInt16}
    {saved : List UInt16} (hSteady : ∀ action ∈ actions, action.isSteady)
    (hFrame : (address :: saved) <:+ machine.stack)
    (hOff : machine.StaysOff saved.length actions) :
    (address :: saved) <:+ (machine.run actions).2.stack := by
  induction actions generalizing machine with
  | nil => exact hFrame
  | cons action actions ih =>
    have hLater : ∀ later ∈ actions, later.isSteady :=
      fun later hMem => hSteady later (List.mem_cons_of_mem _ hMem)
    rcases frame_act (hSteady action List.mem_cons_self) hFrame with
      hKept | ⟨-, -, -, hSaved, -⟩
    · exact ih hLater hKept hOff.tail
    · -- the return from the frame would bring the stack back to the caller's depth
      have hBack : (machine.act action).2.stack.length = saved.length := by rw [hSaved]
      exact absurd hBack (hOff 1 (by simp))

/-- After a call, the saved addresses of the caller and the address behind the call stay
at the bottom of the stack until the stack is as low as before the call.  The operation
that brings it there is the step that executes a return; it leaves exactly the caller's
addresses, and the counter behind the call. -/
theorem return_restores_call {machine : Machine} (hReady : machine.Ready)
    (hInside : machine.counter.toNat + 1 < 4096) (hCall : machine.word / 0x1000 = 0x2)
    (hRoom : machine.stack.length < stackLimit) {actions : List Action}
    (hSteady : ∀ action ∈ actions, action.isSteady)
    (hOff : machine.step.2.StaysOff machine.stack.length actions) :
    ∃ behind : UInt16, behind.toNat = machine.counter.toNat + 2 ∧
      machine.step.2.stack = behind :: machine.stack ∧
      (behind :: machine.stack) <:+ (machine.step.2.run actions).2.stack ∧
      ∀ action : Action, action.isSteady →
        (machine.step.2.run (actions ++ [action])).2.stack.length = machine.stack.length →
          action = .step ∧ (machine.step.2.run actions).2.Fetches 0x00EE ∧
            (machine.step.2.run (actions ++ [action])).2.stack = machine.stack ∧
            (machine.step.2.run (actions ++ [action])).2.counter.toNat =
              machine.counter.toNat + 2 := by
  have hBehind : (machine.counter + 2).toNat = machine.counter.toNat + 2 :=
    CounterStep.toNat_apply (by omega) .next
  have hSaved := step_of_call hReady hInside hCall hRoom
  have hFrame : ((machine.counter + 2) :: machine.stack) <:+
      (machine.step.2.run actions).2.stack := by
    have hTop : ((machine.counter + 2) :: machine.stack) <:+ machine.step.2.stack :=
      hSaved ▸ List.suffix_refl _
    exact frame_run hSteady hTop hOff
  refine ⟨machine.counter + 2, hBehind, hSaved, hFrame, ?_⟩
  intro action hAction hDepth
  rw [run_concat] at hDepth ⊢
  rcases frame_act hAction hFrame with hKept | ⟨hStep, hFetches, -, hStack, hCounter⟩
  · -- with the frame still in place the stack would be higher than it is
    have hLonger : machine.stack.length < machine.stack.length :=
      Nat.le_trans hKept.length_le (Nat.le_of_eq hDepth)
    exact absurd hLonger (Nat.lt_irrefl _)
  · exact ⟨hStep, hFetches, hStack, by rw [hCounter, hBehind]⟩

/-- A subroutine that calls another one before it returns. -/
theorem return_restores_call_nested :
    let caller := ((fresh (Entropy.ofWords fun _ => 0)).run
      [.load [0x22, 0x04, 0x00, 0x00, 0x22, 0x08, 0x00, 0xEE, 0x00, 0xEE]]).2
    let inside := (caller.step.2.run [.step, .tick, .step]).2
    let back := (caller.step.2.run [.step, .tick, .step, .step]).2
    inside.stack = [0x202] ∧ back.stack = caller.stack ∧
      back.counter.toNat = caller.counter.toNat + 2 := by
  intro caller inside back
  have hReady : caller.Ready := ⟨rfl, rfl⟩
  have hOff : caller.step.2.StaysOff caller.stack.length [.step, .tick, .step] := by
    decide +kernel
  obtain ⟨behind, -, -, -, hReturn⟩ :=
    return_restores_call hReady (by decide +kernel) (by decide +kernel) (by decide +kernel)
      (by decide) hOff
  obtain ⟨-, -, hBack⟩ := hReturn .step rfl (by decide +kernel)
  exact ⟨by decide +kernel, hBack⟩

end Machine
end ChipEight
