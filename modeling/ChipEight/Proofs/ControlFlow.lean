import ChipEight.Proofs.Bystanders
import ChipEight.Proofs.Invariant
import ChipEight.Proofs.Obeying
import ChipEight.Proofs.Presses

/-!
# Where an opcode leads

An opcode leads to the one behind it, with a few exceptions that can be read off its number.
Jumps, calls and returns lead to an address.  The six skips pass over the opcode behind them
where their condition holds.  An `FX0A` that finds no press to use stays where it is.  Opcodes
that stand for no instruction are no exception: they are passed over.

* `Machine.SkipsIf`, `Machine.Diverts` — the table of the exceptions, by the numbers of opcodes;
* `Machine.Diverts.exists_effect`, `Machine.diverts_or_next` — an instruction moves the counter
  as the table says, and to the opcode behind it where the table is silent;
* `Machine.executed_or_unknown` — the two ways a ready machine gets through a step;
* `Machine.SkipOppositely` — two opcodes of which exactly one skips;
* `Machine.step_goes_where_the_opcode_leads` — counter and outcome of a step.
-/

namespace ChipEight
namespace Machine

open Instruction (registerConstant registerPair)

variable {machine : Machine}

/-! ## The exceptions -/

/-- The key that a register names, modulo the number of the keys. -/
def namedKey (machine : Machine) (x : Register) : Key :=
  ⟨(machine.value x).toNat % 16, Nat.mod_lt _ (by decide)⟩

/-- The opcode with a number skips if a condition holds. -/
inductive SkipsIf (machine : Machine) : Nat → Bool → Prop where
  | equal (x : Register) (constant : UInt8) :
      SkipsIf machine (registerConstant 0x3 x constant.toNat)
        (decide (machine.value x = constant))
  | notEqual (x : Register) (constant : UInt8) :
      SkipsIf machine (registerConstant 0x4 x constant.toNat)
        (decide (machine.value x ≠ constant))
  | same (x y : Register) :
      SkipsIf machine (registerPair 0x5 x y 0) (decide (machine.value x = machine.value y))
  | different (x y : Register) :
      SkipsIf machine (registerPair 0x9 x y 0) (decide (machine.value x ≠ machine.value y))
  | pressed (x : Register) :
      SkipsIf machine (registerConstant 0xE x 0x9E)
        (machine.keypad.levels.get (machine.namedKey x))
  | released (x : Register) :
      SkipsIf machine (registerConstant 0xE x 0xA1)
        (!machine.keypad.levels.get (machine.namedKey x))

/-- The opcode with a number leads to a counter of its own, and not to the opcode behind it. -/
inductive Diverts (machine : Machine) (number : Nat) : Nat → Prop where
  | jump {address : UInt16} (hFits : address.toNat < 0x1000)
      (hNumber : number = 0x1000 + address.toNat) : Diverts machine number address.toNat
  | call {address : UInt16} (hFits : address.toNat < 0x1000)
      (hNumber : number = 0x2000 + address.toNat) : Diverts machine number address.toNat
  | ret {latest : UInt16} {earlier : List UInt16} (hNumber : number = 0x00EE)
      (hStack : machine.stack = latest :: earlier) : Diverts machine number latest.toNat
  | jumpOffset {address : UInt16} (hFits : address.toNat < 0x1000)
      (hNumber : number = 0xB000 + address.toNat) :
      Diverts machine number (address.toNat + (machine.value Register.first).toNat)
  | skip (hSkips : machine.SkipsIf number true) :
      Diverts machine number (machine.counter.toNat + 4)
  | wait {x : Register} (hNumber : number = 0xF00A + 0x100 * x.val)
      (hNone : ¬ machine.HoldsPress) : Diverts machine number machine.counter.toNat

/-! ## What the instructions do about the counter -/

/-- A skip has an instruction, which does nothing but move the counter. -/
theorem SkipsIf.exists_effect {number : Nat} {condition : Bool}
    (hSkips : machine.SkipsIf number condition) :
    ∃ instruction : Instruction Register, instruction.Fits ∧ instruction.encode = number ∧
      machine.effect instruction = Effect.quiet machine (.skipIf condition) := by
  cases hSkips with
  | equal x constant => exact ⟨.skipEqual x constant, trivial, rfl, rfl⟩
  | notEqual x constant => exact ⟨.skipNotEqual x constant, trivial, rfl, rfl⟩
  | same x y => exact ⟨.skipSame x y, trivial, rfl, rfl⟩
  | different x y => exact ⟨.skipDifferent x y, trivial, rfl, rfl⟩
  | pressed x => exact ⟨.skipPressed x, trivial, rfl, rfl⟩
  | released x => exact ⟨.skipReleased x, trivial, rfl, rfl⟩

/-- An opcode of the table has an instruction, which leads where the table says. -/
theorem Diverts.exists_effect {opcode : Opcode} {target : Nat}
    (hDiverts : machine.Diverts opcode.toNat target) :
    ∃ instruction, Instruction.decode? opcode = some instruction ∧
      ∀ done, machine.effect instruction = .ok done →
        done.step.reach machine.counter.toNat = target := by
  cases hDiverts with
  | @jump address hFits hNumber =>
    refine ⟨.jump address, Instruction.decode?_of_encode hFits hNumber.symm, fun done hEffect => ?_⟩
    cases hEffect
    rfl
  | @call address hFits hNumber =>
    refine ⟨.call address, Instruction.decode?_of_encode hFits hNumber.symm, fun done hEffect => ?_⟩
    obtain ⟨-, rfl⟩ := effect_call_eq_ok_iff.mp hEffect
    rfl
  | @ret latest earlier hNumber hStack =>
    refine ⟨.ret, Instruction.decode?_of_encode trivial hNumber.symm, fun done hEffect => ?_⟩
    rw [effect_ret_of_cons hStack] at hEffect
    cases hEffect
    rfl
  | @jumpOffset address hFits hNumber =>
    refine ⟨.jumpOffset address, Instruction.decode?_of_encode hFits hNumber.symm,
      fun done hEffect => ?_⟩
    cases hEffect
    exact Instruction.toNat_jumpOffset hFits _
  | skip hSkips =>
    obtain ⟨instruction, hFits, hEncode, hSkip⟩ := hSkips.exists_effect
    refine ⟨instruction, Instruction.decode?_of_encode hFits hEncode, fun done hEffect => ?_⟩
    rw [hSkip] at hEffect
    cases hEffect
    rfl
  | @wait x hNumber hNone =>
    refine ⟨.awaitKey x, decode?_awaitKey.mpr hNumber, fun done hEffect => ?_⟩
    rw [effect, awaitKey_of_no_heldPress x (heldPress_eq_none_iff.mpr hNone)] at hEffect
    cases hEffect
    rfl

/-- The table is silent on opcodes that stand for no instruction. -/
theorem not_diverts {opcode : Opcode} (hNone : Instruction.decode? opcode = none)
    (target : Nat) : ¬ machine.Diverts opcode.toNat target := by
  intro hDiverts
  obtain ⟨instruction, hSome, -⟩ := hDiverts.exists_effect
  rw [hNone] at hSome
  contradiction

/-- An instruction leads where the table says, or to the opcode behind it. -/
theorem diverts_or_next {instruction : Instruction Register} {done : Effect}
    (hFits : instruction.Fits) (hEffect : machine.effect instruction = .ok done) :
    machine.Diverts instruction.encode (done.step.reach machine.counter.toNat) ∨
      done.step = .next := by
  have hSkip {number : Nat} {condition : Bool} (hSkips : machine.SkipsIf number condition) :
      machine.Diverts number ((CounterStep.skipIf condition).reach machine.counter.toNat) ∨
        CounterStep.skipIf condition = .next := by
    cases condition
    · exact Or.inr rfl
    · exact Or.inl (.skip hSkips)
  cases instruction with
  | jump address => cases hEffect; exact Or.inl (.jump hFits rfl)
  | call address =>
    obtain ⟨-, rfl⟩ := effect_call_eq_ok_iff.mp hEffect
    exact Or.inl (.call hFits rfl)
  | ret =>
    obtain ⟨latest, earlier, hStack, rfl⟩ := effect_ret_eq_ok_iff.mp hEffect
    exact Or.inl (.ret rfl hStack)
  | jumpOffset address =>
    cases hEffect
    left
    show machine.Diverts _ (address + (machine.value Register.first).toUInt16).toNat
    rw [Instruction.toNat_jumpOffset hFits]
    exact .jumpOffset hFits rfl
  | skipEqual x constant => cases hEffect; exact hSkip (.equal x constant)
  | skipNotEqual x constant => cases hEffect; exact hSkip (.notEqual x constant)
  | skipSame x y => cases hEffect; exact hSkip (.same x y)
  | skipDifferent x y => cases hEffect; exact hSkip (.different x y)
  | skipPressed x => cases hEffect; exact hSkip (.pressed x)
  | skipReleased x => cases hEffect; exact hSkip (.released x)
  | awaitKey x =>
    rcases effect_awaitKey_eq_ok_iff.mp hEffect with ⟨key, -, rfl⟩ | ⟨hHeld, rfl⟩
    · exact Or.inr rfl
    · have hNumber : (Instruction.awaitKey x).encode = 0xF00A + 0x100 * x.val := by
        simp only [Instruction.encode, registerConstant]
        omega
      exact Or.inl (.wait hNumber (heldPress_eq_none_iff.mp hHeld))
  | _ => cases hEffect; exact Or.inr rfl

/-! ## Steps of a ready machine -/

theorem counter_of_effect {instruction : Instruction Register} {done : Effect}
    (hEffect : machine.effect instruction = .ok done) :
    done.machine.counter = machine.counter := by
  cases flow_of_effect hEffect with
  | onward hSame => exact hSame.counter
  | _ => rfl

/-- That the opcode was recorded before makes no difference to how an instruction moves the
counter, nor to its signal. -/
theorem exists_effect_of_recording {opcode : Opcode} {instruction : Instruction Register}
    {done : Effect} (hEffect : (machine.recording opcode).effect instruction = .ok done) :
    ∃ own, machine.effect instruction = .ok own ∧ own.step = done.step ∧
      own.signal = done.signal := by
  have hRecorded : (machine.effect instruction).map (Effect.labelled · machine.name opcode) =
      .ok done := (machine.effect_labelled machine.name opcode instruction).symm.trans hEffect
  cases hOwn : machine.effect instruction with
  | error fault =>
    rw [hOwn] at hRecorded
    contradiction
  | ok own =>
    rw [hOwn] at hRecorded
    cases hRecorded
    exact ⟨own, rfl, rfl, rfl⟩

/-- A ready machine gets through a step by passing over an opcode that stands for no instruction,
or by executing an instruction, which moves the counter and signals to the host. -/
theorem executed_or_unknown {outcome : Outcome} (hReady : machine.Ready)
    (hResult : machine.step.1 = .ok outcome) :
    ∃ opcode, machine.Fetches opcode ∧
      ((Instruction.decode? opcode = none ∧ outcome = .unknown opcode ∧
          machine.step.2.counter = CounterStep.next.apply machine.counter) ∨
        ∃ instruction done, Instruction.decode? opcode = some instruction ∧
          machine.effect instruction = .ok done ∧ outcome = done.signal.outcome ∧
          machine.step.2.counter = done.step.apply machine.counter) := by
  have hSteps := machine.steps_step
  rw [hResult] at hSteps
  generalize machine.step.2 = next at hSteps
  cases hSteps with
  | waiting hFault hAwaiting => exact absurd hAwaiting (hReady.awaiting_ne _)
  | resumed hFault hAwaiting => exact absurd hAwaiting (hReady.awaiting_ne _)
  | @unknown opcode hFetches hDecode => exact ⟨opcode, hFetches, Or.inl ⟨hDecode, rfl, rfl⟩⟩
  | @executed opcode instruction done hFetches hDecode hEffect =>
    obtain ⟨own, hOwn, hStep, hSignal⟩ := exists_effect_of_recording hEffect
    refine ⟨opcode, hFetches, Or.inr ⟨instruction, own, hDecode, hOwn, ?_, ?_⟩⟩
    · rw [hSignal]
    · show done.step.apply done.machine.counter = own.step.apply machine.counter
      rw [counter_of_effect hEffect, hStep]
      rfl

/-- The counter goes where the table says, and to the opcode behind where it is silent. -/
theorem counter_of_step {outcome : Outcome} (hReady : machine.Ready)
    (hResult : machine.step.1 = .ok outcome) :
    (∀ target, machine.Diverts machine.word target →
        machine.step.2.counter.toNat = target) ∧
      ((∀ target, ¬ machine.Diverts machine.word target) →
        machine.step.2.counter.toNat = machine.counter.toNat + 2) := by
  obtain ⟨opcode, hFetches, hCases⟩ := executed_or_unknown hReady hResult
  have hReach (step : CounterStep) :
      (step.apply machine.counter).toNat = step.reach machine.counter.toNat := by
    have hInside := hFetches.inside
    exact CounterStep.toNat_apply (by omega) step
  rw [← hFetches.word]
  rcases hCases with ⟨hDecode, -, hCounter⟩ | ⟨instruction, done, hDecode, hEffect, -, hCounter⟩
  · rw [hCounter, hReach]
    exact ⟨fun target hDiverts => absurd hDiverts (not_diverts hDecode target), fun _ => rfl⟩
  · rw [hCounter, hReach]
    constructor
    · intro target hDiverts
      obtain ⟨same, hSame, hTarget⟩ := hDiverts.exists_effect
      obtain rfl : instruction = same := Option.some.inj (hDecode.symm.trans hSame)
      exact hTarget done hEffect
    · intro hNone
      obtain ⟨hFits, hEncode⟩ := Instruction.encode_of_decode? hDecode
      rcases diverts_or_next hFits hEffect with hDiverts | hNext
      · rw [hEncode] at hDiverts
        exact absurd hDiverts (hNone _)
      · rw [hNext]
        rfl

/-! ## What a step reports -/

theorem unknown_iff {outcome : Outcome} (hReady : machine.Ready)
    (hResult : machine.step.1 = .ok outcome) {opcode : Opcode} :
    outcome = .unknown opcode ↔
      opcode.toNat = machine.word ∧ Instruction.decode? opcode = none := by
  obtain ⟨fetched, hFetches, hCases⟩ := executed_or_unknown hReady hResult
  rw [← hFetches.word, UInt16.toNat_inj]
  rcases hCases with ⟨hDecode, rfl, -⟩ | ⟨instruction, done, hDecode, -, rfl, -⟩
  · constructor
    · intro hSame
      cases hSame
      exact ⟨rfl, hDecode⟩
    · rintro ⟨rfl, -⟩
      rfl
  · refine iff_of_false ?_ ?_
    · cases done.signal <;> exact nofun
    · rintro ⟨rfl, hNone⟩
      rw [hDecode] at hNone
      contradiction

/-! ## Skips with opposite conditions -/

/-- Of the opcodes with two numbers one skips and the other does not. -/
def SkipOppositely (machine : Machine) (first second : Nat) : Prop :=
  ∃ next other, machine.Obeys first .proceed next ∧ machine.Obeys second .proceed other ∧
    (next.counter = machine.counter + 4 ∧ other.counter = machine.counter + 2 ∨
      next.counter = machine.counter + 2 ∧ other.counter = machine.counter + 4)

theorem SkipsIf.obeys {number : Nat} {condition : Bool}
    (hSkips : machine.SkipsIf number condition) :
    machine.Obeys number .proceed (machine.advance (.skipIf condition)) := by
  obtain ⟨instruction, hFits, rfl, hEffect⟩ := hSkips.exists_effect
  exact obeys_encode instruction hFits hEffect

theorem skipOppositely_of_not {first second : Nat} {condition : Bool}
    (hFirst : machine.SkipsIf first condition) (hSecond : machine.SkipsIf second (!condition)) :
    machine.SkipOppositely first second := by
  refine ⟨_, _, hFirst.obeys, hSecond.obeys, ?_⟩
  cases condition
  · exact Or.inr ⟨rfl, rfl⟩
  · exact Or.inl ⟨rfl, rfl⟩

/-- What a step does to the counter and what it reports, read off the two bytes at the counter.
A ready machine that gets through its step goes where the table of the exceptions says, and to
the opcode behind where the table is silent, which it is on every opcode that stands for no
instruction.  Such an opcode is reported as unknown, an `FX0A` without a press whose key is still
down blocks, and everything else advances.  In every state whatsoever the skips with opposite
conditions on the same operands take opposite branches. -/
theorem step_goes_where_the_opcode_leads :
    (∀ (machine : Machine) (outcome : Outcome), machine.Ready →
      machine.counter.toNat ≤ 0xFFE → machine.step.1 = .ok outcome →
        let opcode := machine.word
        let next := machine.step.2.counter.toNat
        let isUnknown := Instruction.decode? machine.upcoming = none
        let waits := (∃ x : Register, opcode = 0xF00A + 0x100 * x.val) ∧ ¬ machine.HoldsPress
        (∀ target, machine.Diverts opcode target → next = target) ∧
        ((∀ target, ¬ machine.Diverts opcode target) → next = machine.counter.toNat + 2) ∧
        (isUnknown → ∀ target, ¬ machine.Diverts opcode target) ∧
        (outcome = .unknown machine.upcoming ↔ isUnknown) ∧
        (outcome = .blocked ↔ waits) ∧
        (outcome = .advanced ↔ ¬ isUnknown ∧ ¬ waits)) ∧
    ∀ (machine : Machine) (x y : Register) (constant : UInt8),
      machine.SkipOppositely (registerConstant 0x3 x constant.toNat)
        (registerConstant 0x4 x constant.toNat) ∧
      machine.SkipOppositely (registerPair 0x5 x y 0) (registerPair 0x9 x y 0) ∧
      machine.SkipOppositely (registerConstant 0xE x 0x9E) (registerConstant 0xE x 0xA1) := by
  constructor
  · intro machine outcome hReady hCounter hResult opcode next isUnknown waits
    have hInside : machine.counter.toNat + 1 < 4096 := by omega
    have hUnknown : outcome = .unknown machine.upcoming ↔ isUnknown := by
      rw [unknown_iff hReady hResult]
      exact and_iff_right machine.toNat_upcoming
    have hBlocked : outcome = .blocked ↔ waits := by
      have hStep := blocked_iff hReady hInside
      rwa [hResult, Except.ok.injEq] at hStep
    obtain ⟨hDiverts, hSilent⟩ := counter_of_step hReady hResult
    refine ⟨hDiverts, hSilent, fun hNone target => ?_, hUnknown, hBlocked, ?_⟩
    · have hUpcoming : ¬ machine.Diverts machine.upcoming.toNat target := not_diverts hNone target
      rwa [toNat_upcoming] at hUpcoming
    · rw [← hUnknown, ← hBlocked]
      cases outcome with
      | advanced => exact iff_of_true rfl ⟨nofun, nofun⟩
      | blocked => exact iff_of_false nofun fun hOther => hOther.2 rfl
      | unknown code =>
        obtain ⟨hCode, -⟩ := (unknown_iff hReady hResult).mp rfl
        obtain rfl : code = machine.upcoming :=
          UInt16.toNat_inj.mp (hCode.trans machine.toNat_upcoming.symm)
        exact iff_of_false nofun fun hOther => hOther.1 rfl
  · intro machine x y constant
    refine ⟨skipOppositely_of_not (.equal x constant) ?_, skipOppositely_of_not (.same x y) ?_,
      skipOppositely_of_not (.pressed x) (.released x)⟩
    · rw [← decide_not]
      exact .notEqual x constant
    · rw [← decide_not]
      exact .different x y

/-- A skip on a key that a register names modulo sixteen, a jump beyond twelve bits, and an opcode
of group 5 whose last digit selects nothing. -/
theorem step_goes_where_the_opcode_leads_skipping :
    let start := (fresh (Entropy.ofWords fun _ => 0)).setValue 3 0x17
    let skipping := (start.run [.setKey 7 true, .load [0xE3, 0x9E]]).2
    let jumping := ((start.setValue Register.first 0xFF).act (.load [0xBF, 0xFF])).2
    let passing := (start.act (.load [0x53, 0x31])).2
    skipping.step.2.counter.toNat = 0x204 ∧ jumping.step.2.counter.toNat = 0x10FE ∧
      passing.step.2.counter.toNat = 0x202 := by
  intro start skipping jumping passing
  obtain ⟨hLeads, -⟩ := step_goes_where_the_opcode_leads
  refine ⟨?_, ?_, ?_⟩
  · have hFetches : skipping.Fetches 0xE39E := by decide +kernel
    have hDown : skipping.keypad.levels.get (skipping.namedKey 3) = true := by decide +kernel
    have hSkips : skipping.Diverts skipping.word (skipping.counter.toNat + 4) := by
      rw [← hFetches.word]
      exact .skip (hDown ▸ .pressed 3)
    have hStep : skipping.step.1 = .ok .advanced := by
      rw [step_of_steps (.executed hFetches rfl rfl)]
      rfl
    obtain ⟨hDiverts, -⟩ := hLeads skipping _ hFetches.toReady (by decide +kernel) hStep
    rw [hDiverts _ hSkips]
    decide +kernel
  · have hFetches : jumping.Fetches 0xBFFF := by decide +kernel
    have hJumps : jumping.Diverts jumping.word (0xFFF + (jumping.value Register.first).toNat) := by
      have hFits : (0xFFF : UInt16).toNat < 0x1000 := by decide
      rw [← hFetches.word]
      exact .jumpOffset hFits rfl
    have hStep : jumping.step.1 = .ok .advanced := by
      rw [step_of_steps (.executed hFetches rfl rfl)]
      rfl
    obtain ⟨hDiverts, -⟩ := hLeads jumping _ hFetches.toReady (by decide +kernel) hStep
    rw [hDiverts _ hJumps]
    decide +kernel
  · have hFetches : passing.Fetches 0x5331 := by decide +kernel
    have hStep : passing.step.1 = .ok (.unknown 0x5331) := by
      rw [step_of_steps (.unknown hFetches rfl)]
    obtain ⟨-, hSilent, hUnknown, -⟩ :=
      hLeads passing _ hFetches.toReady (by decide +kernel) hStep
    rw [hSilent (hUnknown (by decide +kernel))]
    decide +kernel

end Machine
end ChipEight
