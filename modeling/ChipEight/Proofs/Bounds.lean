import ChipEight.Proofs.Invariant
import ChipEight.Proofs.Ranges

/-!
# The bounds of a reachable state

The invariant leaves the counter far below the end of its word, so that no addition that moves
it wraps.  Registers, memory and sprites have a fixed size, and whatever an operation reads or
writes there is at a place that exists.  That is said of the operations themselves: the byte
that one of them moves is found at both of its places.

* `Machine.NeverWraps` — no move of the counter wraps;
* `Machine.SameByte` — a byte that stands at a place of one list and at a place of another;
* `Machine.InRange` — the places that the operations use;
* `Machine.reachable_bounds` — all of this holds in every reachable state.
-/

namespace ChipEight
namespace Machine

/-- No addition that moves the counter wraps: neither a step from where the counter
is, nor the offset that a decoded jump adds to its address. -/
structure NeverWraps (machine : Machine) : Prop where
  step : ∀ step : CounterStep,
    (step.apply machine.counter).toNat = step.reach machine.counter.toNat
  offset : ∀ opcode address, Instruction.decode opcode = .ok (.jumpOffset address) →
    (address + (machine.value Register.first).toUInt16).toNat =
      address.toNat + (machine.value Register.first).toNat

theorem Invariant.neverWraps {machine : Machine} (hInv : machine.Invariant) :
    machine.NeverWraps where
  step step := by
    have hCounter := hInv.counter_le
    exact CounterStep.toNat_apply (by omega) step
  offset opcode address hDecode := by
    have hAddress : address.toNat < 0x1000 := (Instruction.decode_eq_ok_iff.mp hDecode).1
    exact Instruction.toNat_jumpOffset hAddress _

/-! ## The places that operations use -/

/-- Two lists have the places that are named, and the same byte stands there. -/
def SameByte (source : List UInt8) (place : Nat) (target : List UInt8) (other : Nat) : Prop :=
  ∃ byte, source[place]? = some byte ∧ target[other]? = some byte

/-- Every place that an operation uses is one of those that there are.  A register is one of
sixteen, also the awaited one, which is written when the wait ends.  Both bytes of a fetched
opcode are in the memory.  The bytes from the index register on are in the memory where they
wrap to: the three digits and the registers that are stored there, the registers that are loaded
from there, and the rows of a decoded sprite, of which there are less than sixteen.  And so are
the bytes of an accepted program. -/
structure InRange (machine : Machine) : Prop where
  register : ∀ x : Register, machine.registers.toList[x.val]? = some (machine.value x)
  awaited : ∀ x, machine.awaiting = some x →
    x.val < machine.registers.toList.length ∧
      ∀ key, machine.keypad.latch = some key →
        (machine.resume x).2.registers.toList[x.val]? = some (UInt8.ofNat key.val)
  fetch : ∀ opcode, machine.memory.fetch machine.counter.toNat = .ok opcode →
    ∃ high low, machine.memory.toList[machine.counter.toNat]? = some high ∧
      machine.memory.toList[machine.counter.toNat + 1]? = some low ∧
      opcode.toNat = 0x100 * high.toNat + low.toNat
  memory : ∀ offset, machine.memory.toList[(machine.index.toNat + offset) % 4096]? =
    some (machine.memory.read (machine.index.toNat + offset))
  storeDecimal : ∀ x done, machine.effect (.storeDecimal x) = .ok done → ∀ offset < 3,
    SameByte (decimalDigits (machine.value x)) offset
      done.machine.memory.toList ((machine.index.toNat + offset) % 4096)
  storeFront : ∀ x done, machine.effect (.storeFront x) = .ok done → ∀ offset ≤ x.val,
    SameByte machine.registers.toList offset
      done.machine.memory.toList ((machine.index.toNat + offset) % 4096)
  loadFront : ∀ x done, machine.effect (.loadFront x) = .ok done → ∀ offset ≤ x.val,
    SameByte machine.memory.toList ((machine.index.toNat + offset) % 4096)
      done.machine.registers.toList offset
  draw : ∀ opcode x y height done, Instruction.decode opcode = .ok (.draw x y height) →
    machine.effect (.draw x y height) = .ok done →
      ∃ rows : List UInt8, rows.length = height.toNat ∧ rows.length < 16 ∧
        (∀ row < rows.length,
          SameByte machine.memory.toList ((machine.index.toNat + row) % 4096) rows row) ∧
        done.machine.screen =
          (machine.screen.draw (machine.value x).toNat (machine.value y).toNat rows).2
  program : ∀ bytes next, machine.load bytes = .ok next →
    Program.start + bytes.length ≤ machine.memory.toList.length ∧
      ∀ offset < bytes.length,
        SameByte bytes offset next.memory.toList (Program.start + offset)

variable {machine : Machine}

/-- Each of the values that are written one after the other is found where its address wraps
to. -/
theorem sameByte_writeAll (memory : Memory) (start : Nat) {values : List UInt8} {offset : Nat}
    (hSize : values.length ≤ 4096) (hOffset : offset < values.length) :
    SameByte values offset (memory.writeAll start values).toList ((start + offset) % 4096) := by
  refine ⟨values[offset], List.getElem?_eq_getElem hOffset, ?_⟩
  rw [Memory.getElem?_toList, Memory.read_writeAll_of_inside hSize hOffset]

theorem sameByte_storeFront (x : Register) {offset : Nat} (hOffset : offset ≤ x.val) :
    SameByte machine.registers.toList offset
      (machine.memory.writeAll machine.index.toNat (machine.registers.upTo x)).toList
      ((machine.index.toNat + offset) % 4096) := by
  have hLength := machine.registers.length_upTo x
  have hSize : (machine.registers.upTo x).length ≤ 4096 := by omega
  have hFront : offset < (machine.registers.upTo x).length := by omega
  obtain ⟨byte, hStored, hFound⟩ :=
    sameByte_writeAll machine.memory machine.index.toNat hSize hFront
  refine ⟨byte, ?_, hFound⟩
  rw [← hStored, Registers.upTo, List.getElem?_take_of_lt (Nat.lt_succ_of_le hOffset)]

/-- A register that is loaded holds the byte that its place wraps to. -/
theorem sameByte_loadFront (x : Register) {offset : Nat} (hOffset : offset ≤ x.val) :
    SameByte machine.memory.toList ((machine.index.toNat + offset) % 4096)
      (machine.registers.setFront
        (machine.memory.readAll machine.index.toNat (x.val + 1))).toList offset := by
  obtain ⟨y, rfl⟩ : ∃ y : Register, y.val = offset :=
    ⟨⟨offset, Nat.lt_of_le_of_lt hOffset x.isLt⟩, rfl⟩
  refine ⟨_, machine.memory.getElem?_toList _, ?_⟩
  rw [Registers.getElem?_toList, Registers.get_setFront,
    Memory.getElem?_readAll _ _ (Nat.lt_succ_of_le hOffset), Option.getD_some]

/-- The rows of a sprite are the bytes that their places wrap to. -/
theorem sameByte_readAll (memory : Memory) (start : Nat) {count row : Nat} (hRow : row < count) :
    SameByte memory.toList ((start + row) % 4096) (memory.readAll start count) row :=
  ⟨memory.read (start + row), memory.getElem?_toList _, memory.getElem?_readAll start hRow⟩

theorem sameByte_load {bytes : List UInt8} {next : Machine}
    (hLoad : machine.load bytes = .ok next) :
    Program.start + bytes.length ≤ machine.memory.toList.length ∧
      ∀ offset < bytes.length,
        SameByte bytes offset next.memory.toList (Program.start + offset) := by
  unfold load at hLoad
  split at hLoad
  · contradiction
  · next hFits =>
    cases hLoad
    simp only [Program.capacity, Program.start, Nat.not_lt] at hFits ⊢
    refine ⟨by simp; omega, fun offset hOffset => ?_⟩
    have hStored := sameByte_writeAll machine.memory 0x200 (by omega) hOffset
    rwa [Nat.mod_eq_of_lt (by omega)] at hStored

theorem inRange (machine : Machine) : machine.InRange where
  register x := machine.registers.getElem?_toList x
  awaited x _ := by
    refine ⟨by simp, fun key hLatch => ?_⟩
    rw [resume_of_some hLatch, Registers.getElem?_toList]
    simp [resumed]
  fetch opcode hFetch := by
    obtain ⟨hInside, hWord⟩ := Memory.fetch_eq_ok_iff.mp hFetch
    have hPlace {address : Nat} (hAddress : address < 4096) :
        machine.memory.toList[address]? = some (machine.memory.read address) := by
      have hWrapped := machine.memory.getElem?_toList address
      rwa [Nat.mod_eq_of_lt hAddress] at hWrapped
    exact ⟨_, _, hPlace (Nat.lt_of_succ_lt hInside), hPlace hInside, hWord⟩
  memory offset := machine.memory.getElem?_toList _
  storeDecimal x done hEffect offset hOffset := by
    cases hEffect
    exact sameByte_writeAll _ _ (by simp [decimalDigits]) hOffset
  storeFront x done hEffect offset hOffset := by
    cases hEffect
    exact sameByte_storeFront x hOffset
  loadFront x done hEffect offset hOffset := by
    cases hEffect
    exact sameByte_loadFront x hOffset
  draw opcode x y height done hDecode hEffect := by
    have hHeight : height.toNat < 16 := (Instruction.decode_eq_ok_iff.mp hDecode).1
    cases hEffect
    refine ⟨machine.memory.readAll machine.index.toNat height.toNat, ?_, ?_, ?_, rfl⟩
    · exact machine.memory.length_readAll _ _
    · rw [Memory.length_readAll]
      exact hHeight
    · rw [Memory.length_readAll]
      exact fun row hRow => sameByte_readAll _ _ hRow
  program bytes next hLoad := sameByte_load hLoad

/-- Every reachable state satisfies the invariant, so that no move of its counter
wraps, and every place that an operation uses is one of those that there are. -/
theorem reachable_bounds {machine : Machine} (hReachable : machine.Reachable) :
    machine.memory.toList.length = 4096 ∧
      (∀ key, machine.keypad.latch = some key → key.val < 16) ∧
      machine.Invariant ∧ machine.NeverWraps ∧ machine.InRange := by
  have hInv := hReachable.invariant
  exact ⟨machine.memory.length_toList, fun key _ => key.isLt, hInv, hInv.neverWraps,
    machine.inRange⟩

/-- A program that calls a subroutine, which then waits for a key. -/
def parkingActions : List Action :=
  [.load [0x22, 0x04, 0x00, 0x00, 0xF3, 0x0A], .step, .step]

theorem reachable_bounds_parked :
    let parked := ((fresh (Entropy.ofWords fun _ => 0)).run parkingActions).2
    parked.Reachable ∧ parked.awaiting = some 3 ∧ parked.stack = [0x202] ∧
      parked.Invariant ∧ parked.NeverWraps ∧ parked.InRange := by
  intro parked
  have hReachable : parked.Reachable := ⟨_, parkingActions, by decide, rfl⟩
  obtain ⟨-, -, hBounds⟩ := reachable_bounds hReachable
  exact ⟨hReachable, by decide +kernel, by decide +kernel, hBounds⟩

end Machine
end ChipEight
