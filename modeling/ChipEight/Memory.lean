import ChipEight.Opcode

/-!
# The memory

4096 bytes.  Reading and writing take any number as an address and wrap it into
the memory; fetching an opcode is the one access that does not wrap and can fail.
-/

namespace ChipEight

/-- The place of a byte in the memory. -/
abbrev Address := Fin 4096

namespace Address

/-- The place that a number denotes, modulo the size of the memory. -/
def wrap (number : Nat) : Address := ⟨number % 4096, by omega⟩

end Address

structure Memory where
  bytes : Vector UInt8 4096
deriving DecidableEq

namespace Memory

def zero : Memory := ⟨Vector.replicate 4096 0⟩

/-- The byte at a wrapped address. -/
def read (memory : Memory) (address : Nat) : UInt8 :=
  memory.bytes[Address.wrap address]

/-- The memory with the byte at a wrapped address replaced. -/
def write (memory : Memory) (address : Nat) (value : UInt8) : Memory :=
  ⟨memory.bytes.set (Address.wrap address).val value (Address.wrap address).isLt⟩

/-- The bytes at consecutive wrapped addresses. -/
def readAll (memory : Memory) (start count : Nat) : List UInt8 :=
  (List.range count).map fun offset => memory.read (start + offset)

/-- Writes values to consecutive wrapped addresses, in order. -/
def writeAll (memory : Memory) (start : Nat) : List UInt8 → Memory
  | [] => memory
  | value :: values => (memory.write start value).writeAll (start + 1) values

/-- The opcode at an address. -/
def fetch (memory : Memory) (pointer : Nat) : Except Fault Opcode :=
  Opcode.fetch memory.bytes.toArray pointer

/-- All bytes in order of their address. -/
def toList (memory : Memory) : List UInt8 := memory.bytes.toList

/-- Reading after writing gives the written value where the addresses agree modulo
the size of the memory, and what was there before elsewhere. -/
@[simp] theorem read_write (memory : Memory) (written address : Nat) (value : UInt8) :
    (memory.write written value).read address =
      if written % 4096 = address % 4096 then value else memory.read address := by
  simp only [read, write, Address.wrap, Fin.getElem_fin, Vector.getElem_set]

/-- Reading sees an address modulo the size of the memory only. -/
@[simp] theorem read_mod (memory : Memory) (address : Nat) :
    memory.read (address % 4096) = memory.read address := by
  simp [read, Address.wrap, Fin.getElem_fin]

@[simp] theorem length_toList (memory : Memory) : memory.toList.length = 4096 :=
  memory.bytes.length_toList

/-- The list of all bytes has every wrapped address. -/
theorem getElem?_toList (memory : Memory) (address : Nat) :
    memory.toList[address % 4096]? = some (memory.read address) := by
  have hPlace : address % 4096 < 4096 := Nat.mod_lt _ (by omega)
  rw [toList, Vector.getElem?_toList, Vector.getElem?_eq_getElem hPlace]
  rfl

end Memory
end ChipEight
