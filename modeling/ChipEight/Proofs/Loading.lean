import Mathlib.Data.List.Induction
import ChipEight.Proofs.Ranges
import ChipEight.Proofs.Running

/-!
# One load after the other

A load copies a program over whatever was at the start of the program memory, and clears nothing
behind it.  After several loads the memory is a patchwork: at each place stands the byte of the
last program that reached it.  A program that does not fit is refused before any of it is
copied, and leaves neither a byte nor its name behind.

* `Machine.Action.offered?`, `Machine.Action.accepted?` — the program of a load, and whether it
  fits;
* `Machine.act_of_refused`, `Machine.act_of_accepted` — one load;
* `Machine.lastReaching?`, `Machine.lastTitle?` — whose byte and whose name is left at the end;
* `Machine.Patchwork`, `Machine.patchwork_run` — the machine after a sequence of loads;
* `Machine.loads_make_a_patchwork` — what each load answers, and what all of them leave behind.
-/

namespace ChipEight
namespace Machine

namespace Action

/-- The bytes that an operation asks to load. -/
def offered? : Action → Option (List UInt8)
  | .load bytes => some bytes
  | .loadProgram program => some program.bytes
  | _ => none

/-- The name that they come under. -/
def title? : Action → Option String
  | .loadProgram program => some program.name
  | _ => none

/-- The bytes of a load, if they fit. -/
def accepted? (action : Action) : Option (List UInt8) :=
  action.offered?.filter fun bytes => bytes.length ≤ Program.capacity

/-- The name of a program that fits. -/
def acceptedTitle? (action : Action) : Option String :=
  action.accepted?.bind fun _ => action.title?

end Action

variable {machine last : Machine} {action : Action} {actions : List Action} {bytes : List UInt8}

/-! ## One load -/

theorem accepted?_of_refused (hOffered : action.offered? = some bytes)
    (hTooLong : Program.capacity < bytes.length) : action.accepted? = none := by
  rw [Action.accepted?, hOffered, Option.filter_some, if_neg (by simpa using hTooLong)]

theorem accepted?_of_fits (hOffered : action.offered? = some bytes)
    (hFits : bytes.length ≤ Program.capacity) : action.accepted? = some bytes := by
  rw [Action.accepted?, hOffered, Option.filter_some, if_pos (by simpa using hFits)]

/-- A load of too many bytes reports how many they are and how many would fit, and changes
nothing. -/
theorem act_of_refused (hOffered : action.offered? = some bytes)
    (hTooLong : Program.capacity < bytes.length) :
    machine.act action = (.tooLarge ⟨bytes.length, Program.capacity⟩, machine) := by
  cases action with
  | load | loadProgram =>
    cases hOffered
    simp only [act, loadProgram, load, hTooLong, if_true, loaded]
  | _ => cases hOffered

theorem message_eq (size : Nat) :
    (ProgramTooLarge.mk size Program.capacity).message =
      "The program is " ++ String.ofList (Numeral.decimal size) ++
        " bytes long, but only 3584 bytes fit into memory." := by
  have hLimit : String.ofList (Numeral.decimal Program.capacity) = "3584" := by
    decide +kernel
  have hRest : " bytes long, but only " ++ ("3584" ++ " bytes fit into memory.") =
      " bytes long, but only 3584 bytes fit into memory." := by
    decide +kernel
  unfold ProgramTooLarge.message
  rw [hLimit, String.append_assoc, String.append_assoc]
  exact congrArg _ hRest

/-- Any other load copies the bytes to the start of the program memory, and takes over the name
that they come under. -/
theorem act_of_accepted (hOffered : action.offered? = some bytes)
    (hFits : bytes.length ≤ Program.capacity) :
    machine.act action =
      (.done,
        { machine with
          memory := machine.memory.writeAll Program.start bytes
          name := action.title?.getD machine.name }) := by
  have hNotTooLong : ¬ Program.capacity < bytes.length := Nat.not_lt.mpr hFits
  cases action with
  | load | loadProgram =>
    cases hOffered
    simp only [act, loadProgram, load, hNotTooLong, if_false, loaded]
    rfl
  | _ => cases hOffered

/-- The byte at an offset is that of the program if the program reaches so far. -/
theorem read_loaded {memory : Memory} {offset : Nat} (hFits : bytes.length ≤ Program.capacity)
    (hOffset : offset < Program.capacity) :
    (memory.writeAll Program.start bytes).read (Program.start + offset) =
      bytes[offset]?.getD (memory.read (Program.start + offset)) := by
  have hSize : Program.start + Program.capacity = 4096 := rfl
  by_cases hReaches : offset < bytes.length
  · rw [Memory.read_writeAll_of_inside (by omega) hReaches, List.getElem?_eq_getElem hReaches,
      Option.getD_some]
  · rw [List.getElem?_eq_none (Nat.not_lt.mp hReaches), Option.getD_none]
    refine Memory.read_writeAll_of_outside fun other hOther => ?_
    omega

/-- In front of the program memory nothing changes. -/
theorem read_loaded_of_lt {memory : Memory} {address : Nat}
    (hFits : bytes.length ≤ Program.capacity) (hFront : address < Program.start) :
    (memory.writeAll Program.start bytes).read address = memory.read address := by
  have hSize : Program.start + Program.capacity = 4096 := rfl
  refine Memory.read_writeAll_of_outside fun other hOther => ?_
  omega

/-! ## Several loads -/

/-- The last of the accepted programs that has a byte at the offset. -/
def lastReaching? (actions : List Action) (offset : Nat) : Option (List UInt8) :=
  ((actions.filterMap Action.accepted?).filter fun bytes => offset < bytes.length).getLast?

/-- The name of the last program that was accepted under one. -/
def lastTitle? (actions : List Action) : Option String :=
  (actions.filterMap Action.acceptedTitle?).getLast?

theorem lastReaching?_concat (actions : List Action) (action : Action) (offset : Nat) :
    lastReaching? (actions ++ [action]) offset =
      (action.accepted?.filter fun bytes => offset < bytes.length).or
        (lastReaching? actions offset) := by
  rw [lastReaching?, List.filterMap_append, List.filter_append, List.getLast?_append]
  cases hAccepted : action.accepted? with
  | none => simp [hAccepted, lastReaching?]
  | some bytes =>
    by_cases hReaches : offset < bytes.length <;>
      simp [hAccepted, hReaches, lastReaching?, Option.filter_some]

/-- It does have that byte. -/
theorem length_of_lastReaching? {offset : Nat} (hLast : lastReaching? actions offset = some bytes) :
    offset < bytes.length := by
  have hMem := List.mem_of_getLast? hLast
  simpa using (List.mem_filter.mp hMem).2

theorem lastTitle?_concat (actions : List Action) (action : Action) :
    lastTitle? (actions ++ [action]) = action.acceptedTitle?.or (lastTitle? actions) := by
  rw [lastTitle?, List.filterMap_append, List.getLast?_append]
  cases hTitle : action.acceptedTitle? <;> simp [hTitle, lastTitle?]

/-- The machine after a sequence of loads. -/
structure Patchwork (machine : Machine) (actions : List Action) (last : Machine) : Prop where
  others : last = { machine with memory := last.memory, name := last.name }
  name : last.name = (lastTitle? actions).getD machine.name
  front : ∀ address < Program.start, last.memory.read address = machine.memory.read address
  program : ∀ offset < Program.capacity, last.memory.read (Program.start + offset) =
    ((lastReaching? actions offset).bind (·[offset]?)).getD
      (machine.memory.read (Program.start + offset))

/-- A refused load leaves the patchwork as it is. -/
theorem Patchwork.concat_refused (hPatchwork : machine.Patchwork actions last)
    (hRefused : action.accepted? = none) : machine.Patchwork (actions ++ [action]) last where
  others := hPatchwork.others
  name := by
    rw [lastTitle?_concat, Action.acceptedTitle?, hRefused]
    exact hPatchwork.name
  front := hPatchwork.front
  program offset hOffset := by
    rw [lastReaching?_concat, hRefused]
    exact hPatchwork.program offset hOffset

/-- An accepted one puts a patch on it. -/
theorem Patchwork.concat_accepted (hPatchwork : machine.Patchwork actions last)
    (hAccepted : action.accepted? = some bytes) (hFits : bytes.length ≤ Program.capacity) :
    machine.Patchwork (actions ++ [action])
      { last with
        memory := last.memory.writeAll Program.start bytes
        name := action.title?.getD last.name } where
  others := by
    rw [hPatchwork.others]
  name := by
    rw [lastTitle?_concat, Action.acceptedTitle?, hAccepted, Option.bind_some,
      Option.getD_or, ← hPatchwork.name]
  front address hFront := by
    rw [read_loaded_of_lt hFits hFront]
    exact hPatchwork.front address hFront
  program offset hOffset := by
    rw [read_loaded hFits hOffset, lastReaching?_concat, hAccepted, Option.filter_some,
      hPatchwork.program offset hOffset]
    by_cases hReaches : offset < bytes.length <;> simp [hReaches]

/-- Whatever is loaded one after the other, it makes a patchwork. -/
theorem patchwork_run (hLoads : ∀ action ∈ actions, action.offered?.isSome) :
    machine.Patchwork actions (machine.run actions).2 := by
  -- the last load lies on top of all others, so the induction takes that one off
  induction actions using List.reverseRecOn with
  | nil => exact ⟨rfl, rfl, fun _ _ => rfl, fun _ _ => rfl⟩
  | append_singleton actions action ih =>
    have hEarlier : machine.Patchwork actions (machine.run actions).2 :=
      ih fun earlier hMem => hLoads earlier (List.mem_append_left _ hMem)
    obtain ⟨bytes, hOffered⟩ := Option.isSome_iff_exists.mp (hLoads action (by simp))
    rw [run_concat]
    by_cases hTooLong : Program.capacity < bytes.length
    · rw [act_of_refused hOffered hTooLong]
      exact hEarlier.concat_refused (accepted?_of_refused hOffered hTooLong)
    · have hFits : bytes.length ≤ Program.capacity := Nat.not_lt.mp hTooLong
      rw [act_of_accepted hOffered hFits]
      exact hEarlier.concat_accepted (accepted?_of_fits hOffered hFits) hFits

/-- Loads of any programs in any order, on any machine.  A load is refused exactly if its program
is longer than 3584 bytes; then it reports the length and that limit, and changes nothing.  After
all of them, each place of the program memory holds the byte of the last accepted program that
reached it, and what it held before if none did.  The memory in front of the programs is
unchanged, the name is that of the last accepted program that came under one, and everything
else about the machine is as it was. -/
theorem loads_make_a_patchwork :
    (∀ (machine : Machine) (action : Action) (bytes : List UInt8),
      action.offered? = some bytes →
        (3584 < bytes.length →
          ∃ problem : ProgramTooLarge, machine.act action = (.tooLarge problem, machine) ∧
            problem.size = bytes.length ∧ problem.max = 3584 ∧
            problem.message = "The program is " ++ String.ofList (Numeral.decimal bytes.length) ++
              " bytes long, but only 3584 bytes fit into memory.") ∧
        (bytes.length ≤ 3584 → (machine.act action).1 = .done)) ∧
    ∀ (machine : Machine) (actions : List Action),
      (∀ action ∈ actions, action.offered?.isSome) →
        let last := (machine.run actions).2
        (∀ offset < 3584, ∀ bytes, lastReaching? actions offset = some bytes →
          bytes[offset]? = some (last.memory.read (0x200 + offset))) ∧
        (∀ offset < 3584, lastReaching? actions offset = none →
          last.memory.read (0x200 + offset) = machine.memory.read (0x200 + offset)) ∧
        (∀ address < 0x200, last.memory.read address = machine.memory.read address) ∧
        last.name = (lastTitle? actions).getD machine.name ∧
        last = { machine with memory := last.memory, name := last.name } := by
  refine ⟨fun machine action bytes hOffered => ⟨fun hTooLong => ?_, fun hFits => ?_⟩, ?_⟩
  · exact ⟨⟨bytes.length, Program.capacity⟩, act_of_refused hOffered hTooLong, rfl, rfl,
      message_eq _⟩
  · rw [act_of_accepted hOffered hFits]
  · intro machine actions hLoads last
    have hPatchwork : machine.Patchwork actions last := patchwork_run hLoads
    refine ⟨fun offset hOffset bytes hLast => ?_, fun offset hOffset hNone => ?_,
      hPatchwork.front, hPatchwork.name, hPatchwork.others⟩
    · have hReaches : offset < bytes.length := length_of_lastReaching? hLast
      have hRead := hPatchwork.program offset hOffset
      rw [hLast, Option.bind_some, List.getElem?_eq_getElem hReaches, Option.getD_some] at hRead
      rw [List.getElem?_eq_getElem hReaches]
      exact congrArg some hRead.symm
    · have hRead := hPatchwork.program offset hOffset
      rw [hNone] at hRead
      exact hRead

/-- A long program, then a short one without a name, and then one that does not fit: the second
byte is that of the short program, the fourth one is that of the long program, and the name is
that of the long program as well. -/
theorem loads_make_a_patchwork_overlapping :
    let start := fresh (Entropy.ofWords fun _ => 0)
    let huge : Action := .loadProgram ⟨"huge", List.replicate 3585 7⟩
    let actions : List Action := [.loadProgram ⟨"long", [1, 2, 3, 4]⟩, .load [9, 8], huge]
    let last := (start.run actions).2
    (∃ problem, start.act huge = (.tooLarge problem, start) ∧ problem.size = 3585 ∧
      problem.max = 3584) ∧
      last.memory.read 0x201 = 8 ∧ last.memory.read 0x203 = 4 ∧
      last.memory.read 0x204 = start.memory.read 0x204 ∧ last.name = "long" := by
  intro start huge actions last
  obtain ⟨hLoad, hLoads⟩ := loads_make_a_patchwork
  obtain ⟨problem, hRefused, hSize, hMax, -⟩ :=
    (hLoad start huge (List.replicate 3585 7) rfl).1 (by rw [List.length_replicate]; decide)
  rw [List.length_replicate] at hSize
  obtain ⟨hPrograms, hUntouched, -, hName, -⟩ := hLoads start actions (by decide)
  have hSecond : lastReaching? actions 1 = some [9, 8] := by decide +kernel
  have hFourth : lastReaching? actions 3 = some [1, 2, 3, 4] := by decide +kernel
  have hFifth : lastReaching? actions 4 = none := by decide +kernel
  have hTitle : lastTitle? actions = some "long" := by decide +kernel
  refine ⟨⟨problem, hRefused, hSize, hMax⟩, ?_, ?_, hUntouched 4 (by decide) hFifth, ?_⟩
  · exact (Option.some.inj (hPrograms 1 (by decide) _ hSecond)).symm
  · exact (Option.some.inj (hPrograms 3 (by decide) _ hFourth)).symm
  · rw [hTitle, Option.getD_some] at hName
    exact hName

end Machine
end ChipEight
