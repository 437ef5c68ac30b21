import ChipEight.Proofs.Running

/-!
# The invariant of the machine

Whatever a host does to a new machine, the counter stays far below the end of its
word, every saved address lies where a call can have put it, and a recorded fault or a
key wait says how it came about.  The bounds hold each other up: a return goes where a
call was, a call happens at an address that can be fetched, and a jump reaches at most
`0xFFF` plus one byte.

* `Machine.Invariant` — the invariant, with one field for each part of it;
* `Machine.invariant_of_steps` and `Machine.invariant_act` — a step preserves it, and
  so does every operation of a host;
* `Machine.Reachable.invariant` — the invariant holds in every reachable state.
-/

namespace ChipEight

namespace Instruction

/-- An opcode stands for the instruction it stands for because of its digits. -/
theorem toNat_of_decode? {opcode : Opcode} {instruction : Instruction Register}
    (hDecode : decode? opcode = some instruction) : opcode.toNat = instruction.encode :=
  (encode_of_decode? hDecode).2.symm

/-- The address of a decoded jump with an offset stays within the word after adding
the offset. -/
theorem toNat_jumpOffset {address : UInt16} (hFits : address.toNat < 0x1000) (offset : UInt8) :
    (address + offset.toUInt16).toNat = address.toNat + offset.toNat := by
  have hOffset : offset.toNat < 0x100 := offset.toNat_lt
  rw [UInt16.toNat_add, UInt8.toNat_toUInt16]
  exact Nat.mod_eq_of_lt (by omega)

end Instruction

namespace Machine

/-- What holds of the fields of a machine in every reachable state. -/
structure Invariant (machine : Machine) : Prop where
  stack_length : machine.stack.length ≤ stackLimit
  stack_range : ∀ address ∈ machine.stack, 0x0002 ≤ address.toNat ∧ address.toNat ≤ 0x1000
  counter_le : machine.counter.toNat ≤ 0x10FE
  awaiting : ∀ x, machine.awaiting = some x →
    machine.fault = none ∧ machine.counter.toNat ≤ 0xFFE ∧
      machine.opcode.toNat = 0xF00A + 0x100 * x.val
  outside : ∀ pointer size, machine.fault = some (.noOpcodeAt pointer size) →
    pointer = machine.counter.toNat ∧ 0xFFF ≤ pointer ∧ size = 4096
  stackEmpty : machine.fault = some .stackEmpty →
    machine.stack = [] ∧ machine.opcode.toNat = 0x00EE
  stackFull : machine.fault = some .stackFull →
    machine.stack.length = stackLimit ∧ machine.opcode.toNat / 0x1000 = 0x2

/-- The invariant is about the flow of control only. -/
theorem Invariant.of_sameControl {before after : Machine} (hInv : before.Invariant)
    (hSame : before.SameControl after) : after.Invariant := by
  obtain ⟨hOpcode, hCounter, hStack, hAwaiting, hFault⟩ := hSame
  constructor
  · rw [hStack]; exact hInv.stack_length
  · rw [hStack]; exact hInv.stack_range
  · rw [hCounter]; exact hInv.counter_le
  · rw [hAwaiting, hFault, hCounter, hOpcode]; exact hInv.awaiting
  · rw [hFault, hCounter]; exact hInv.outside
  · rw [hFault, hStack, hOpcode]; exact hInv.stackEmpty
  · rw [hFault, hStack, hOpcode]; exact hInv.stackFull

/-- For a ready machine only the bounds are left to show. -/
theorem Invariant.of_ready {machine : Machine} (hReady : machine.Ready)
    (hLength : machine.stack.length ≤ stackLimit)
    (hRange : ∀ address ∈ machine.stack, 0x0002 ≤ address.toNat ∧ address.toNat ≤ 0x1000)
    (hCounter : machine.counter.toNat ≤ 0x10FE) : machine.Invariant where
  stack_length := hLength
  stack_range := hRange
  counter_le := hCounter
  awaiting x hAwaiting := absurd hAwaiting (hReady.awaiting_ne x)
  outside _ _ hFault := absurd hFault (hReady.fault_ne _)
  stackEmpty hFault := absurd hFault (hReady.fault_ne _)
  stackFull hFault := absurd hFault (hReady.fault_ne _)

/-- A machine after power-on satisfies the invariant. -/
theorem invariant_powerOn (name : String) (levels : Levels) (entropy : Entropy) :
    (powerOn name levels entropy).Invariant := by
  refine Invariant.of_ready ⟨rfl, rfl⟩ (Nat.zero_le _) ?_ ?_
  · intro address hMem
    exact absurd hMem List.not_mem_nil
  · show (UInt16.ofNat Program.start).toNat ≤ 0x10FE
    decide

/-- The opcode that follows one inside the memory is at most just past its end. -/
theorem counter_apply_le {machine : Machine} (hInside : machine.counter.toNat + 1 < 4096)
    {step : CounterStep} (hStep : step = .next ∨ step = .skip) :
    (step.apply machine.counter).toNat ≤ 0x10FE := by
  rw [CounterStep.toNat_apply (by omega)]
  rcases hStep with rfl | rfl
  · show machine.counter.toNat + 2 ≤ 0x10FE
    omega
  · show machine.counter.toNat + 4 ≤ 0x10FE
    omega

/-- An instruction that is executed preserves the invariant. -/
theorem invariant_next {machine : Machine} {opcode : Opcode}
    {instruction : Instruction Register} {done : Effect} (hFetches : machine.Fetches opcode)
    (hDecode : Instruction.decode? opcode = some instruction)
    (hFlow : (machine.recording opcode).Flow instruction done) (hInv : machine.Invariant) :
    done.next.Invariant := by
  have hFits := (Instruction.encode_of_decode? hDecode).1
  have hInside := hFetches.inside
  have hReady := hFetches.toReady
  cases hFlow with
  | @ret latest earlier hStack =>
    -- the counter takes over the latest address, which is bounded as it was saved
    have hOld := hInv.stack_range
    have hLength := hInv.stack_length
    replace hStack : machine.stack = latest :: earlier := hStack
    rw [hStack] at hOld hLength
    refine Invariant.of_ready ⟨hReady.fault, hReady.awaiting⟩ ?_ ?_ ?_
    · exact Nat.le_of_succ_le hLength
    · exact fun address hMem => hOld address (List.mem_cons_of_mem _ hMem)
    · show latest.toNat ≤ 0x10FE
      have hLatest := hOld latest List.mem_cons_self
      omega
  | @call address hRoom =>
    -- the saved address is just behind one that could be fetched
    have hSaved : (machine.counter + 2).toNat = machine.counter.toNat + 2 :=
      CounterStep.toNat_apply (by omega) .next
    refine Invariant.of_ready ⟨hReady.fault, hReady.awaiting⟩ hRoom ?_ ?_
    · intro saved hMem
      rcases List.mem_cons.mp hMem with hNew | hOld
      · rw [hNew]
        show 2 ≤ (machine.counter + 2).toNat ∧ (machine.counter + 2).toNat ≤ 0x1000
        omega
      · exact hInv.stack_range saved hOld
    · show address.toNat ≤ 0x10FE
      have hAddress : address.toNat < 0x1000 := hFits
      omega
  | @jump address =>
    refine Invariant.of_ready ⟨hReady.fault, hReady.awaiting⟩ hInv.stack_length hInv.stack_range ?_
    show address.toNat ≤ 0x10FE
    have hAddress : address.toNat < 0x1000 := hFits
    omega
  | @jumpOffset address =>
    refine Invariant.of_ready ⟨hReady.fault, hReady.awaiting⟩ hInv.stack_length hInv.stack_range ?_
    show (address + (machine.value Register.first).toUInt16).toNat ≤ 0x10FE
    have hAddress : address.toNat < 0x1000 := hFits
    have hOffset : (machine.value Register.first).toNat < 0x100 := UInt8.toNat_lt _
    rw [Instruction.toNat_jumpOffset hAddress]
    omega
  | @wait x hHeld =>
    have hOpcode : opcode.toNat = 0xF000 + 0x100 * x.val + 0x0A :=
      Instruction.toNat_of_decode? hDecode
    -- the counter stays, so the wait is still at the opcode that was just fetched
    have hParked : machine.counter.toNat ≤ 0xFFE := by omega
    have hRecorded : opcode.toNat = 0xF00A + 0x100 * x.val := by omega
    refine
      { hInv with
        awaiting := ?_
        stackEmpty := fun hFault => absurd hFault (hReady.fault_ne _)
        stackFull := fun hFault => absurd hFault (hReady.fault_ne _) }
    intro awaited hAwaited
    cases hAwaited
    exact ⟨hReady.fault, hParked, hRecorded⟩
  | onward hSame hStep =>
    refine Invariant.of_ready ⟨hSame.fault.trans hReady.fault, hSame.awaiting.trans hReady.awaiting⟩
      ?_ ?_ ?_
    · show done.machine.stack.length ≤ stackLimit
      rw [hSame.stack]
      exact hInv.stack_length
    · show ∀ address ∈ done.machine.stack, _
      rw [hSame.stack]
      exact hInv.stack_range
    · show (done.step.apply done.machine.counter).toNat ≤ 0x10FE
      rw [hSame.counter]
      exact counter_apply_le hInside hStep

/-- An instruction that fails leaves the stack as the recorded fault says. -/
theorem invariant_failed {machine : Machine} {opcode : Opcode}
    {instruction : Instruction Register} {fault : Fault} (hFetches : machine.Fetches opcode)
    (hDecode : Instruction.decode? opcode = some instruction)
    (hEffect : (machine.recording opcode).effect instruction = .error fault)
    (hInv : machine.Invariant) :
    Invariant { machine.recording opcode with fault := some fault } := by
  have hOpcode : opcode.toNat = instruction.encode := Instruction.toNat_of_decode? hDecode
  have hFits := (Instruction.encode_of_decode? hDecode).1
  rcases effect_eq_error_iff.mp hEffect with
    ⟨rfl, hEmpty, rfl⟩ | ⟨⟨address, rfl⟩, hFull, rfl⟩
  · exact
      { hInv with
        awaiting := fun x hAwaiting => absurd hAwaiting (hFetches.awaiting_ne x)
        outside := nofun
        stackEmpty := fun _ => ⟨hEmpty, hOpcode⟩
        stackFull := nofun }
  · have hLength : machine.stack.length = stackLimit :=
      Nat.le_antisymm hInv.stack_length hFull
    have hGroup : opcode.toNat / 0x1000 = 0x2 := by
      have hAddress : address.toNat < 0x1000 := hFits
      have hCall : opcode.toNat = 0x2000 + address.toNat := hOpcode
      omega
    exact
      { hInv with
        awaiting := fun x hAwaiting => absurd hAwaiting (hFetches.awaiting_ne x)
        outside := nofun
        stackEmpty := nofun
        stackFull := fun _ => ⟨hLength, hGroup⟩ }

/-- Every step preserves the invariant. -/
theorem invariant_of_steps {machine next : Machine} {result : Except Fault Outcome}
    (hSteps : machine.Steps result next) (hInv : machine.Invariant) : next.Invariant := by
  cases hSteps with
  | halted hFault => exact hInv
  | waiting hFault hAwaiting hLatch => exact hInv
  | @resumed x key hFault hAwaiting hLatch =>
    -- the wait began inside the memory, and the counter has not moved since
    obtain ⟨-, hCounter, -⟩ := hInv.awaiting x hAwaiting
    refine Invariant.of_ready ⟨hFault, rfl⟩ hInv.stack_length hInv.stack_range ?_
    exact counter_apply_le (by omega) (Or.inl rfl)
  | outside hReady hOutside =>
    exact
      { hInv with
        awaiting := fun x hAwaiting => absurd hAwaiting (hReady.awaiting_ne x)
        outside := by
          intro pointer size hFault
          cases hFault
          exact ⟨rfl, by omega, rfl⟩
        stackEmpty := nofun
        stackFull := nofun }
  | unknown hFetches hDecode =>
    refine Invariant.of_ready ⟨hFetches.fault, hFetches.awaiting⟩ hInv.stack_length
      hInv.stack_range ?_
    exact counter_apply_le hFetches.inside (Or.inl rfl)
  | failed hFetches hDecode hEffect => exact invariant_failed hFetches hDecode hEffect hInv
  | executed hFetches hDecode hEffect =>
    exact invariant_next hFetches hDecode (flow_of_effect hEffect) hInv

/-- Every operation of a host preserves the invariant. -/
theorem invariant_act (machine : Machine) (action : Action) (hHost : action.isHost)
    (hInv : machine.Invariant) : (machine.act action).2.Invariant := by
  rcases machine.act_of_isHost hHost with rfl | rfl | hSame
  · exact invariant_of_steps machine.steps_step hInv
  · exact invariant_powerOn machine.name machine.keypad.levels machine.entropy
  · exact hInv.of_sameControl hSame

theorem Reachable.invariant {machine : Machine} (hReachable : machine.Reachable) :
    machine.Invariant :=
  hReachable.holds (invariant_powerOn "" Levels.released) invariant_act

end Machine
end ChipEight
