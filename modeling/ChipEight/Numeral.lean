/-!
# Numerals

Natural numbers as text: the digits of a number in a base, upper-case
hexadecimal numerals with a least number of digits, and plain decimal numerals.

A least width only ever adds zeros in front: a number that needs more digits is
written with all of them.
-/

namespace ChipEight
namespace Numeral

/-- The digit of a value below sixteen, with capital letters from ten on. -/
def digit (value : Nat) : Char :=
  if value < 10 then Char.ofNat ('0'.toNat + value)
  else Char.ofNat ('A'.toNat + (value - 10))

/-- The digits of a number in a base of at least two, most significant first and
without leading zeros; zero has the one digit `0`. -/
def digits (base value : Nat) : List Char :=
  if _ : base < 2 ∨ value < base then [digit value]
  else digits base (value / base) ++ [digit (value % base)]
termination_by value
decreasing_by
  exact Nat.div_lt_self (by omega) (by omega)

/-- Fills a digit text up to a least width with zeros in front. -/
def padded (width : Nat) (text : List Char) : List Char :=
  List.replicate (width - text.length) '0' ++ text

/-- The bare hexadecimal numeral of a number. -/
def hex (value : Nat) : List Char :=
  digits 16 value

/-- The hexadecimal numeral with its `0x` mark and at least `width` digits. -/
def markedHex (width value : Nat) : List Char :=
  '0' :: 'x' :: padded width (hex value)

/-- The decimal numeral of a number. -/
def decimal (value : Nat) : List Char :=
  digits 10 value

/-- A number below the base is written with one digit. -/
theorem digits_of_lt {base value : Nat} (hValue : value < base) :
    digits base value = [digit value] := by
  rw [digits, dif_pos (Or.inr hValue)]

/-- A number of at least the base ends in the digit of its remainder. -/
theorem digits_of_le {base value : Nat} (hBase : 2 ≤ base) (hValue : base ≤ value) :
    digits base value = digits base (value / base) ++ [digit (value % base)] := by
  rw [digits, dif_neg (by omega)]

end Numeral
end ChipEight
