/-!
# The register bank

Sixteen 8-bit registers, named by their index.  The last one doubles as the flag
of arithmetic and of drawing.
-/

namespace ChipEight

/-- The name of a register: `0` to `15`. -/
abbrev Register := Fin 16

namespace Register

/-- The register that jumps with an offset add. -/
def first : Register := ⟨0, by omega⟩

/-- The register that arithmetic and drawing use as their flag. -/
def flag : Register := ⟨15, by omega⟩

end Register

structure Registers where
  values : Vector UInt8 16
deriving DecidableEq

namespace Registers

def zero : Registers := ⟨Vector.replicate 16 0⟩

def get (bank : Registers) (x : Register) : UInt8 := bank.values[x]

def set (bank : Registers) (x : Register) (value : UInt8) : Registers :=
  ⟨bank.values.set x.val value x.isLt⟩

/-- The values of the registers in order of their index. -/
def toList (bank : Registers) : List UInt8 := bank.values.toList

/-- The values of the first registers, up to and including `last`. -/
def upTo (bank : Registers) (last : Register) : List UInt8 :=
  bank.toList.take (last.val + 1)

/-- The bank whose first registers are replaced by the given values in order;
values beyond the last register are dropped. -/
def setFront (bank : Registers) (front : List UInt8) : Registers :=
  ⟨Vector.ofFn fun x => front[x.val]?.getD (bank.get x)⟩

/-- Reading after writing gives the written value, and any other register what it
held before. -/
@[simp] theorem get_set (bank : Registers) (x y : Register) (value : UInt8) :
    (bank.set x value).get y = if x = y then value else bank.get y := by
  simp only [get, set, Fin.getElem_fin, Vector.getElem_set, Fin.ext_iff]

/-- After a replacement of the front, a register holds its new value where there
is one and its old value elsewhere. -/
@[simp] theorem get_setFront (bank : Registers) (front : List UInt8) (x : Register) :
    (bank.setFront front).get x = front[x.val]?.getD (bank.get x) := by
  simp [get, setFront]

@[simp] theorem length_toList (bank : Registers) : bank.toList.length = 16 :=
  bank.values.length_toList

@[simp] theorem getElem?_toList (bank : Registers) (x : Register) :
    bank.toList[x.val]? = some (bank.get x) := by
  rw [toList, Vector.getElem?_toList, Vector.getElem?_eq_getElem x.isLt]
  rfl

@[simp] theorem length_upTo (bank : Registers) (x : Register) :
    (bank.upTo x).length = x.val + 1 := by
  rw [upTo, List.length_take, length_toList]
  omega

theorem getElem?_upTo (bank : Registers) {x k : Register} (hInside : k ≤ x) :
    (bank.upTo x)[k.val]? = some (bank.get k) := by
  have hTaken : k.val < x.val + 1 := Nat.lt_succ_of_le hInside
  rw [upTo, List.getElem?_take_of_lt hTaken, getElem?_toList]

end Registers
end ChipEight
