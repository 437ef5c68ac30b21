import ChipEight.Machine.Action
import ChipEight.Proofs.Bystanders
import ChipEight.Proofs.Ranges

/-!
# A reset forgets the past

A reset sets a machine back in place, field by field, so that every field which it forgets
about survives it.  There are three of them: the name of the program, the levels of the keys
and the random stream.  The name means nothing to the machine, and what the other two are is
all that a reset machine depends on, however the machine came to its state.

* `Machine.read_initialMemory` — the memory after a reset, byte for byte;
* `Machine.reset_eq_fresh` — a reset machine is a new one apart from the three fields;
* `Machine.SameButName`, `Machine.story_sameButName` — machines that differ in the name only
  cannot be told apart by what they answer, whatever happens to them;
* `Machine.reset_forgets` — after a reset only the levels and the stream matter.
-/

namespace ChipEight

@[simp] theorem Glyphs.length_bytes : bytes.length = 80 := rfl

@[simp] theorem Memory.read_zero (address : Nat) : zero.read address = 0 := by
  simp only [read, zero, Fin.getElem_fin, Vector.getElem_replicate]

namespace Machine

/-! ## The state after a reset -/

/-- The memory holds the glyphs at its start and zeros behind them. -/
theorem read_initialMemory (address : Address) :
    initialMemory.read address.val = Glyphs.bytes[address.val]?.getD 0 := by
  have hLength := Glyphs.length_bytes
  by_cases hGlyph : address.val < Glyphs.bytes.length
  · have hPlace : Glyphs.start + address.val = address.val := Nat.zero_add _
    have hRead : initialMemory.read (Glyphs.start + address.val) = Glyphs.bytes[address.val] :=
      Memory.read_writeAll_of_inside (by omega) hGlyph
    rw [hPlace] at hRead
    rw [hRead, List.getElem?_eq_getElem hGlyph, Option.getD_some]
  · have hBehind : Glyphs.bytes.length ≤ address.val := Nat.not_lt.mp hGlyph
    have hOutside : ∀ offset < Glyphs.bytes.length,
        (Glyphs.start + offset) % 4096 ≠ address.val % 4096 := by
      have hStart : Glyphs.start = 0 := rfl
      omega
    rw [initialMemory, Memory.read_writeAll_of_outside hOutside, Memory.read_zero,
      List.getElem?_eq_none hBehind, Option.getD_none]

/-- A reset machine is a new one, apart from the name, the levels and the stream. -/
theorem reset_eq_fresh (machine : Machine) (entropy : Entropy) :
    machine.reset =
      { fresh entropy with
        name := machine.name
        keypad := { (fresh entropy).keypad with levels := machine.keypad.levels }
        entropy := machine.entropy } := rfl

/-! ## Machines that differ in the name -/

/-- The machines differ in the name of the program at most. -/
def SameButName (left right : Machine) : Prop := ∃ name, left = right.named name

/-- What can happen to a machine. -/
inductive Happening where
  | act (action : Action)
  /-- The fields of the machine are changed in whatever way. -/
  | change (edit : Machine → Machine)

/-- Nothing but the name comes to depend on the name. -/
def Happening.IgnoresName : Happening → Prop
  | .act _ => True
  | .change edit => ∀ left right, SameButName left right → SameButName (edit left) (edit right)

/-- The answers of the machine to what happens to it, and the machine afterwards. -/
def happen (machine : Machine) : Happening → List Reply × Machine
  | .act action => ([(machine.act action).1], (machine.act action).2)
  | .change edit => ([], edit machine)

/-- All answers while one thing happens after the other, and the machine afterwards. -/
def story (machine : Machine) : List Happening → List Reply × Machine
  | [] => ([], machine)
  | happening :: happenings =>
    let first := machine.happen happening
    let rest := first.2.story happenings
    (first.1 ++ rest.1, rest.2)

variable {left right : Machine}

theorem happen_sameButName (hSame : SameButName left right) {happening : Happening}
    (hIgnores : happening.IgnoresName) :
    (left.happen happening).1 = (right.happen happening).1 ∧
      SameButName (left.happen happening).2 (right.happen happening).2 := by
  cases happening with
  | act action =>
    obtain ⟨name, rfl⟩ := hSame
    obtain ⟨later, hAct⟩ := right.act_named name action
    rw [happen, hAct, happen]
    exact ⟨rfl, later, rfl⟩
  | change edit => exact ⟨rfl, hIgnores left right hSame⟩

/-- Whatever happens to two machines that differ in the name only, they answer the same. -/
theorem story_sameButName (hSame : SameButName left right) {happenings : List Happening}
    (hIgnores : ∀ happening ∈ happenings, happening.IgnoresName) :
    (left.story happenings).1 = (right.story happenings).1 ∧
      SameButName (left.story happenings).2 (right.story happenings).2 := by
  induction happenings generalizing left right with
  | nil => exact ⟨rfl, hSame⟩
  | cons happening happenings ih =>
    obtain ⟨hFirst, hNext⟩ := happen_sameButName hSame (hIgnores happening List.mem_cons_self)
    obtain ⟨hRest, hLast⟩ :=
      ih hNext fun later hLater => hIgnores later (List.mem_cons_of_mem _ hLater)
    refine ⟨?_, hLast⟩
    rw [story, hFirst, hRest, story]

/-- Of a reset machine nothing but the name, the levels and the stream is left from before. -/
theorem sameButName_reset (hLevels : left.keypad.levels = right.keypad.levels)
    (hEntropy : left.entropy = right.entropy) : SameButName left.reset right.reset := by
  refine ⟨left.name, ?_⟩
  rw [left.reset_eq_fresh left.entropy, right.reset_eq_fresh left.entropy, hLevels, hEntropy]
  rfl

/-- A reset forgets the past.  Whatever state a machine is in, it is a new machine after a
reset apart from its name, the levels of its keys and its random stream: nothing is latched
or awaited, no fault is recorded, the memory holds the glyphs and zeros, and the screen has
to be shown.  A second reset does nothing.  If two machines agree in the levels and the
stream, then after a reset of both they answer the same to whatever happens to them and
remain the same up to the name. -/
theorem reset_forgets :
    (∀ (machine : Machine) (entropy : Entropy),
      machine.reset =
          { fresh entropy with
            name := machine.name
            keypad := { (fresh entropy).keypad with levels := machine.keypad.levels }
            entropy := machine.entropy } ∧
        machine.reset.keypad.latch = none ∧ machine.reset.awaiting = none ∧
        machine.reset.fault = none ∧ machine.reset.opcode = 0 ∧ machine.reset.redraw = true ∧
        (∀ address : Address,
          machine.reset.memory.read address.val = Glyphs.bytes[address.val]?.getD 0 ∧
            (80 ≤ address.val → machine.reset.memory.read address.val = 0)) ∧
        machine.reset.reset = machine.reset) ∧
    ∀ left right : Machine,
      left.keypad.levels = right.keypad.levels → left.entropy = right.entropy →
      ∀ happenings : List Happening, (∀ happening ∈ happenings, happening.IgnoresName) →
        (left.reset.story happenings).1 = (right.reset.story happenings).1 ∧
          SameButName (left.reset.story happenings).2 (right.reset.story happenings).2 := by
  constructor
  · intro machine entropy
    refine ⟨machine.reset_eq_fresh entropy, rfl, rfl, rfl, rfl, rfl, ?_, rfl⟩
    intro address
    have hRead : machine.reset.memory.read address.val = Glyphs.bytes[address.val]?.getD 0 :=
      read_initialMemory address
    refine ⟨hRead, fun hBehind => ?_⟩
    rw [hRead, List.getElem?_eq_none hBehind, Option.getD_none]
  · intro left right hLevels hEntropy happenings hIgnores
    exact story_sameButName (sameButName_reset hLevels hEntropy) hIgnores

/-- A machine that was halted while it waited, with another program in place of the glyphs,
and a new one: after a reset both draw the same random byte and begin the same wait. -/
theorem reset_forgets_halted :
    let start := fresh (Entropy.ofWords fun place => UInt32.ofNat (place + 7))
    let halted :=
      { start with
        name := "other", memory := start.memory.writeAll 0 [1, 2, 3], stack := [0x300]
        keypad := ⟨start.keypad.levels, some 4⟩, awaiting := some 2, fault := some .stackFull }
    let happenings : List Happening :=
      [.act (.load [0xC5, 0xFF, 0xF3, 0x0A]), .change fun machine => { machine with index := 9 },
        .act .step, .act .step]
    (halted.reset.story happenings).1 = (start.reset.story happenings).1 ∧
      SameButName (halted.reset.story happenings).2 (start.reset.story happenings).2 ∧
      (halted.reset.story happenings).2.value 5 = 7 ∧
      (start.reset.story happenings).2.awaiting = some 3 := by
  intro start halted happenings
  have hIgnores : ∀ happening ∈ happenings, happening.IgnoresName := by
    simp only [happenings, List.forall_mem_cons]
    refine ⟨trivial, ?_, trivial, trivial, fun _ => nofun⟩
    rintro left right ⟨name, rfl⟩
    exact ⟨name, rfl⟩
  obtain ⟨hReplies, hSame⟩ := reset_forgets.2 halted start rfl rfl happenings hIgnores
  exact ⟨hReplies, hSame, by decide +kernel, by decide +kernel⟩

end Machine
end ChipEight
