import ChipEight.Proofs.Bystanders
import ChipEight.Proofs.Running

/-!
# Where random bytes come in

One instruction looks at the random stream, and it takes one byte whatever its mask is.  Nothing
else that happens to a machine reads the stream, advances it or sets it back, a reset included.
So a run is determined by its start and by as many bytes of the stream as it executes such
instructions, although these bytes may decide through skips and jumps what else it executes.

* `Machine.drawing?` — the register and the mask of the `CXNN` that an operation executes;
* `Machine.act_reseeded`, `Machine.act_of_drawing?` — an operation that executes none does the
  same on every stream, and one that does depends on the next byte only;
* `Machine.randomized` — all the `CXNN` that a run executes;
* `Machine.run_reseeded` — two runs whose next bytes agree for as long as bytes are drawn;
* `Machine.one_byte_for_each_random` — the law of the random stream.
-/

namespace ChipEight

namespace Entropy

/-- The stream after a number of draws. -/
def after (entropy : Entropy) (count : Nat) : Entropy :=
  { entropy with drawn := entropy.drawn + count }

theorem after_after (entropy : Entropy) (first second : Nat) :
    (entropy.after first).after second = entropy.after (first + second) := by
  simp only [after, Nat.add_assoc]

/-- The next bytes of two streams are the same, though each may come from its own words and
from its own place. -/
def Agree (count : Nat) (first second : Entropy) : Prop :=
  ∀ place < count, first.byteAt (first.drawn + place) = second.byteAt (second.drawn + place)

instance (count : Nat) (first second : Entropy) : Decidable (Agree count first second) :=
  inferInstanceAs (Decidable (∀ place < count, _ = _))

theorem Agree.mono {count limit : Nat} {first second : Entropy}
    (hAgree : Agree limit first second) (hCount : count ≤ limit) : Agree count first second :=
  fun place hPlace => hAgree place (Nat.lt_of_lt_of_le hPlace hCount)

/-- The bytes that are left after some draws agree as well. -/
theorem Agree.after {earlier later : Nat} {first second : Entropy}
    (hAgree : Agree (earlier + later) first second) :
    Agree later (first.after earlier) (second.after earlier) := by
  intro place hPlace
  have hLater := hAgree (earlier + place) (Nat.add_lt_add_left hPlace earlier)
  rwa [← Nat.add_assoc, ← Nat.add_assoc] at hLater

end Entropy

namespace Machine

variable {machine : Machine} {action : Action} {x : Register} {mask : UInt8}

/-- The register and the mask of the `CXNN` that the operation executes, if it executes one. -/
def drawing? (machine : Machine) : Action → Option (Register × UInt8)
  | .step =>
    if machine.Ready ∧ machine.counter.toNat + 1 < 4096 ∧ machine.word / 0x1000 = 0xC then
      some (machine.upcoming.x, machine.upcoming.constant)
    else none
  | .execute (.random x mask) => some (x, mask)
  | _ => none

/-- A step executes `CXNN` where the opcode says so. -/
theorem drawing?_step_iff :
    machine.drawing? .step = some (x, mask) ↔ machine.Executes (.random x mask) := by
  constructor
  · intro hDraws
    rw [drawing?, Option.ite_none_right_eq_some, Option.some.injEq, Prod.mk.injEq] at hDraws
    obtain ⟨⟨hReady, hInside, hWord⟩, rfl, rfl⟩ := hDraws
    have hGroup : machine.upcoming.group = 0xC := by
      rw [Opcode.group, toNat_upcoming, hWord]
    exact ⟨machine.upcoming, fetches_upcoming hReady hInside,
      Instruction.decode?_of_encode trivial (Instruction.registerConstant_digits hGroup)⟩
  · rintro ⟨opcode, hFetches, hDecode⟩
    have hUpcoming : opcode = machine.upcoming :=
      UInt16.toNat_inj.mp (hFetches.word.trans machine.toNat_upcoming.symm)
    have hEncode := (Instruction.encode_of_decode? hDecode).2
    obtain ⟨hGroup, hX, hMask⟩ :=
      Instruction.group_of_registerConstant 0xC mask.toNat_lt hEncode
    have hWord : machine.word / 0x1000 = 0xC := by
      rw [← hFetches.word]
      exact hGroup
    rw [drawing?, if_pos ⟨hFetches.toReady, hFetches.inside, hWord⟩, ← hUpcoming, hX,
      UInt8.toNat_inj.mp hMask]

/-! ## One operation -/

/-- The machine with another random stream. -/
def reseeded (machine : Machine) (entropy : Entropy) : Machine :=
  { machine with entropy := entropy }

/-- An operation without a draw does the same on every stream, and takes nothing from it. -/
theorem act_reseeded (hNone : machine.drawing? action = none) (entropy : Entropy) :
    (machine.reseeded entropy).act action =
      ((machine.act action).1, (machine.act action).2.reseeded entropy) := by
  have hUnseen (instruction : Instruction Register) (hOther : instruction.drawsByte = false) :
      Aside.Unseen { entropy := fun _ => entropy } instruction :=
    ⟨fun _ => ⟨rfl, rfl⟩, fun hDraws => by rw [hOther] at hDraws; contradiction⟩
  have hPasses : Aside.Passes { entropy := fun _ => entropy } machine action := by
    cases action with
    | step =>
      intro instruction hExecutes
      cases instruction with
      | random x mask =>
        rw [drawing?_step_iff.mpr hExecutes] at hNone
        contradiction
      | _ => exact hUnseen _ rfl
    | execute instruction =>
      cases instruction with
      | random x mask => contradiction
      | _ => exact hUnseen _ rfl
    | tick => exact ⟨fun _ => rfl, fun _ => rfl⟩
    | reset => exact ⟨rfl, rfl⟩
    | loadProgram => exact rfl
    | load | setKey | setKeys | takeRedraw => exact trivial
  exact machine.act_aside rfl hPasses

/-- An operation with a draw puts the next byte of the stream under its mask into its register.
All the rest of what it does is the same on every stream. -/
theorem act_of_drawing? (hDraws : machine.drawing? action = some (x, mask)) :
    ∃ (reply : Reply) (rest : Machine), rest.registers = machine.registers ∧ ∀ entropy,
      (machine.reseeded entropy).act action =
        (reply, (rest.reseeded entropy).randomize x mask) := by
  cases action with
  | step =>
    obtain ⟨opcode, hFetches, hDecode⟩ := drawing?_step_iff.mp hDraws
    let rest : Effect := ⟨machine.recording opcode, .next, .proceed⟩
    refine ⟨.stepped (.ok .advanced), rest.next, rfl, fun entropy => ?_⟩
    have hSteps := Steps.executed
      (fetches_aside hFetches { entropy := fun _ => entropy }) hDecode rfl
    exact congrArg (fun stepped => (Reply.stepped stepped.1, stepped.2)) (step_of_steps hSteps)
  | execute instruction =>
    cases instruction with
    | random =>
      cases hDraws
      exact ⟨.executed (.ok .proceed), machine.advance .next, rfl, fun entropy => rfl⟩
    | _ => contradiction
  | _ => contradiction

theorem drawing?_reseeded (machine : Machine) (entropy : Entropy) (action : Action) :
    (machine.reseeded entropy).drawing? action = machine.drawing? action := by
  have hReady : (machine.reseeded entropy).Ready ↔ machine.Ready :=
    machine.ready_aside { entropy := fun _ => entropy }
  cases action with
  | step =>
    simp only [drawing?, hReady]
    rfl
  | execute instruction => cases instruction <;> rfl
  | _ => rfl

/-- An operation takes as many bytes from the stream as it executes `CXNN`. -/
theorem entropy_act (machine : Machine) (action : Action) :
    (machine.act action).2.entropy =
      machine.entropy.after (machine.drawing? action).toList.length := by
  cases hDraws : machine.drawing? action with
  | none =>
    have hSame : (machine.act action).2 = (machine.act action).2.reseeded machine.entropy :=
      congrArg Prod.snd (act_reseeded hDraws machine.entropy)
    exact (congrArg Machine.entropy hSame).trans rfl
  | some drawing =>
    obtain ⟨reply, rest, -, hAct⟩ := act_of_drawing? hDraws
    exact (congrArg (fun answer => answer.2.entropy) (hAct machine.entropy)).trans rfl

/-- Streams that agree in the byte that is drawn, if one is, lead to the same answer and to the
same machine but for what is left of the streams. -/
theorem act_agree {entropy : Entropy}
    (hAgree : Entropy.Agree (machine.drawing? action).toList.length machine.entropy entropy) :
    (machine.reseeded entropy).act action =
      ((machine.act action).1, (machine.act action).2.reseeded
        (entropy.after (machine.drawing? action).toList.length)) := by
  cases hDraws : machine.drawing? action with
  | none => exact act_reseeded hDraws entropy
  | some drawing =>
    obtain ⟨reply, rest, -, hAct⟩ := act_of_drawing? hDraws
    have hHere : machine.act action = (reply, (rest.reseeded machine.entropy).randomize _ _) :=
      hAct machine.entropy
    rw [hDraws] at hAgree
    have hByte : machine.entropy.draw.1 = entropy.draw.1 := hAgree 0 Nat.one_pos
    rw [hAct, hHere]
    simp only [randomize, reseeded, hByte]
    rfl

/-! ## Whole runs -/

/-- The registers and the masks of the `CXNN` that a run executes, in order. -/
def randomized (machine : Machine) : List Action → List (Register × UInt8)
  | [] => []
  | action :: actions =>
    (machine.drawing? action).toList ++ (machine.act action).2.randomized actions

variable {actions : List Action}

theorem entropy_run (machine : Machine) (actions : List Action) :
    (machine.run actions).2.entropy =
      machine.entropy.after (machine.randomized actions).length := by
  induction actions generalizing machine with
  | nil => rfl
  | cons action actions ih =>
    calc (machine.run (action :: actions)).2.entropy
        = ((machine.act action).2.run actions).2.entropy := rfl
      _ = (machine.entropy.after _).after _ := by rw [ih, entropy_act]
      _ = machine.entropy.after (machine.randomized (action :: actions)).length := by
        rw [Entropy.after_after, randomized, List.length_append]

/-- A run on another stream is the same as long as the bytes agree that it draws. -/
theorem run_reseeded {entropy : Entropy}
    (hAgree : Entropy.Agree (machine.randomized actions).length machine.entropy entropy) :
    (machine.reseeded entropy).randomized actions = machine.randomized actions ∧
      (machine.reseeded entropy).run actions =
        ((machine.run actions).1, (machine.run actions).2.reseeded
          (entropy.after (machine.randomized actions).length)) := by
  -- which instructions a run executes depends on the bytes drawn before, so that both parts
  -- are shown by one induction
  induction actions generalizing machine entropy with
  | nil => exact ⟨rfl, rfl⟩
  | cons action actions ih =>
    have hCount : (machine.randomized (action :: actions)).length =
        (machine.drawing? action).toList.length +
          ((machine.act action).2.randomized actions).length := List.length_append
    rw [hCount] at hAgree
    have hFirst := act_agree (hAgree.mono (Nat.le_add_right _ _))
    have hLater := hAgree.after
    rw [← entropy_act] at hLater
    obtain ⟨hRandomized, hRun⟩ := ih hLater
    constructor
    · simp only [randomized, drawing?_reseeded, hFirst, hRandomized]
    · simp only [run, hFirst, hRun, hCount, Entropy.after_after]

/-- The law of the random stream.  A run takes one byte for each `CXNN` that it executes, and
takes them in order.  Each `CXNN` puts the next byte under its mask into its register and leaves
the other registers alone, the flag among them.  And a run comes out the same on every other
stream whose next bytes are the same, as long as it executes no more `CXNN` than that: it
executes the same ones, the answers are the same, and so is the machine afterwards but for what
is left of the streams. -/
theorem one_byte_for_each_random :
    (∀ (machine : Machine) (actions : List Action),
      (machine.run actions).2.entropy =
        { machine.entropy with
          drawn := machine.entropy.drawn + (machine.randomized actions).length }) ∧
    (∀ (machine : Machine) (before : List Action) (action : Action) (x : Register) (mask : UInt8),
      let earlier := (machine.run before).2
      earlier.drawing? action = some (x, mask) →
        let place := machine.entropy.drawn + (machine.randomized before).length
        let later := (machine.run (before ++ [action])).2
        later.value x = (machine.entropy.words place).toUInt8 &&& mask ∧
          ∀ y, y ≠ x → later.value y = earlier.value y) ∧
    ∀ (machine : Machine) (entropy : Entropy) (actions : List Action) (limit : Nat),
      Entropy.Agree limit machine.entropy entropy →
      (machine.randomized actions).length ≤ limit →
        let other := machine.reseeded entropy
        other.randomized actions = machine.randomized actions ∧
          (other.run actions).1 = (machine.run actions).1 ∧
          (other.run actions).2 =
            (machine.run actions).2.reseeded
              (entropy.after (machine.randomized actions).length) := by
  refine ⟨entropy_run, ?_, ?_⟩
  · intro machine before action x mask earlier hDraws place later
    have hEntropy : earlier.entropy = machine.entropy.after (machine.randomized before).length :=
      machine.entropy_run before
    obtain ⟨reply, rest, hRest, hAct⟩ := act_of_drawing? hDraws
    have hLater : later = (rest.reseeded earlier.entropy).randomize x mask :=
      (machine.run_concat before action).trans (congrArg Prod.snd (hAct earlier.entropy))
    have hRegisters : later.registers =
        earlier.registers.set x ((machine.entropy.words place).toUInt8 &&& mask) := by
      rw [hLater, hEntropy, ← hRest]
      rfl
    constructor
    · simp [value, hRegisters]
    · intro y hOther
      simp [value, hRegisters, hOther.symm]
  · intro machine entropy actions limit hAgree hCount other
    obtain ⟨hRandomized, hRun⟩ := run_reseeded (hAgree.mono hCount)
    obtain ⟨hReplies, hLast⟩ := Prod.ext_iff.mp hRun
    exact ⟨hRandomized, hReplies, hLast⟩

/-- A program whose second random byte decides that an instruction is skipped, then a reset and
a draw into the flag register.  The first byte is drawn under an empty mask, and a third one
after the reset.  The other stream has other words, of which three have the same low bits. -/
theorem one_byte_for_each_random_skipping :
    let start := fresh (Entropy.ofWords fun place => UInt32.ofNat (place + 4))
    let other : Entropy :=
      ⟨fun place => UInt32.ofNat (if place < 9 then place + 0x300 else 0), 4⟩
    let program : List UInt8 := [0xC0, 0x00, 0xC1, 0xFF, 0x31, 0x05, 0xC2, 0xFF, 0x71, 0x10]
    let before : List Action := [.load program, .step, .step, .tick, .step, .step, .reset]
    let actions : List Action := before ++ [.execute (.random 15 0x0E)]
    (start.run actions).2.entropy.drawn = 3 ∧
      (start.run actions).2.value 15 = 6 ∧ (start.run actions).2.value 1 = 0 ∧
      ((start.reseeded other).run actions).1 = (start.run actions).1 ∧
      ((start.reseeded other).run actions).2 = (start.run actions).2.reseeded (other.after 3) := by
  intro start other program before actions
  have hCount : start.randomized before = [(0, 0x00), (1, 0xFF)] := by decide +kernel
  have hAll : start.randomized actions = [(0, 0x00), (1, 0xFF), (15, 0x0E)] := by decide +kernel
  have hAgree : Entropy.Agree 3 start.entropy other := by decide +kernel
  obtain ⟨hDrawn, hStores, hSame⟩ := one_byte_for_each_random
  obtain ⟨hValue, hOthers⟩ := hStores start before (.execute (.random 15 0x0E)) 15 0x0E rfl
  obtain ⟨-, hReplies, hLast⟩ := hSame start other actions 3 hAgree (by rw [hAll]; decide)
  rw [hCount] at hValue
  rw [hAll] at hLast
  refine ⟨?_, hValue.trans (by decide), (hOthers 1 (by decide)).trans rfl, hReplies, hLast⟩
  rw [hDrawn, hAll]
  rfl

end Machine
end ChipEight
