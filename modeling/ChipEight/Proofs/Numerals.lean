import ChipEight.Numeral

/-!
# Reading numerals back

A numeral stands for one number only.  The zeros in front of it add nothing to what it is read
as, so that this is true of numerals of any least width, and also of two numerals whose least
widths differ.  And a numeral is made up of letters and figures, so that it ends where something
else follows it.

* `Numeral.read` — the number that a text of digits stands for;
* `Numeral.read_hex`, `Numeral.markedHex_inj` — a numeral is read back as the number it was
  written for, and so no other number has it;
* `Numeral.not_mem_markedHex`, `Numeral.markedHex_append_inj` — no blank, comma or line break is
  part of a numeral, so that it is found again in a longer text.
-/

namespace ChipEight
namespace Numeral

/-- The value of a digit. -/
def digitValue (symbol : Char) : Nat :=
  if symbol.toNat < 'A'.toNat then symbol.toNat - '0'.toNat
  else symbol.toNat - 'A'.toNat + 10

/-- The number that a text of digits stands for, the most significant digit first. -/
def read (base : Nat) (text : List Char) : Nat :=
  text.foldl (fun number symbol => base * number + digitValue symbol) 0

theorem digitValue_digit {value : Nat} (hValue : value < 16) :
    digitValue (digit value) = value := by
  have hAll : ∀ value < 16, digitValue (digit value) = value := by decide
  exact hAll value hValue

theorem isAlphanum_digit {value : Nat} (hValue : value < 16) : (digit value).isAlphanum = true := by
  have hAll : ∀ value < 16, (digit value).isAlphanum = true := by decide
  exact hAll value hValue

theorem read_concat (base : Nat) (text : List Char) (symbol : Char) :
    read base (text ++ [symbol]) = base * read base text + digitValue symbol := by
  rw [read, List.foldl_append]
  rfl

/-- Zeros in front change nothing. -/
theorem read_padded (base width : Nat) (text : List Char) :
    read base (padded width text) = read base text := by
  have hZero : digitValue '0' = 0 := rfl
  rw [padded, read, List.foldl_append]
  congr 1
  generalize width - text.length = zeros
  induction zeros with
  | zero => rfl
  | succ zeros ih => rw [List.replicate_succ, List.foldl_cons, hZero, Nat.mul_zero, ih]

/-- Digits are read back as the number they were written for. -/
theorem read_digits {base : Nat} (hBase : 2 ≤ base ∧ base ≤ 16) (value : Nat) :
    read base (digits base value) = value := by
  induction value using Nat.strongRecOn with
  | _ value ih =>
    by_cases hOne : value < base
    · rw [digits_of_lt hOne, read, List.foldl_cons, List.foldl_nil, digitValue_digit (by omega)]
      omega
    · have hLast : value % base < base := Nat.mod_lt value (by omega)
      have hFront : value / base < value := Nat.div_lt_self (by omega) (by omega)
      rw [digits_of_le hBase.1 (by omega), read_concat, ih _ hFront, digitValue_digit (by omega)]
      exact Nat.div_add_mod value base

theorem read_hex (value : Nat) : read 16 (hex value) = value :=
  read_digits (by omega) value

/-- A numeral belongs to one number, whatever the least widths are. -/
theorem markedHex_inj {width other value number : Nat}
    (hSame : markedHex width value = markedHex other number) : value = number := by
  simp only [markedHex, List.cons.injEq, true_and] at hSame
  rw [← read_hex value, ← read_padded 16 width, hSame, read_padded, read_hex]

/-! ## What numerals are made up of -/

theorem isAlphanum_of_mem_hex {symbol : Char} {value : Nat} (hMem : symbol ∈ hex value) :
    symbol.isAlphanum = true := by
  induction value using Nat.strongRecOn with
  | _ value ih =>
    rw [hex] at hMem
    by_cases hOne : value < 16
    · rw [digits_of_lt hOne, List.mem_singleton] at hMem
      exact hMem ▸ isAlphanum_digit hOne
    · rw [digits_of_le (by omega) (by omega), List.mem_append, List.mem_singleton] at hMem
      rcases hMem with hFront | hLast
      · exact ih (value / 16) (by omega) hFront
      · exact hLast ▸ isAlphanum_digit (by omega)

theorem not_mem_hex {symbol : Char} (hSymbol : symbol.isAlphanum = false) (value : Nat) :
    symbol ∉ hex value := fun hMem => by
  rw [isAlphanum_of_mem_hex hMem] at hSymbol
  contradiction

theorem not_mem_markedHex {symbol : Char} (hSymbol : symbol.isAlphanum = false)
    (width value : Nat) : symbol ∉ markedHex width value := by
  intro hMem
  simp only [markedHex, padded, List.mem_cons, List.mem_append, List.mem_replicate] at hMem
  rcases hMem with rfl | rfl | ⟨-, rfl⟩ | hDigit
  · contradiction
  · contradiction
  · contradiction
  · exact not_mem_hex hSymbol value hDigit

theorem markedHex_ne_nil (width value : Nat) : markedHex width value ≠ [] :=
  List.cons_ne_nil _ _

/-- A numeral ends in front of the first symbol that is neither a letter nor a figure. -/
theorem markedHex_append_inj {symbol : Char} (hSymbol : symbol.isAlphanum = false)
    {width other value number : Nat} {rest more : List Char}
    (hSame : markedHex width value ++ symbol :: rest = markedHex other number ++ symbol :: more) :
    value = number ∧ rest = more := by
  have hSplit := congrArg (List.splitOn symbol) hSame
  rw [List.splitOn_append_cons_self_of_not_mem (not_mem_markedHex hSymbol width value),
    List.splitOn_append_cons_self_of_not_mem (not_mem_markedHex hSymbol other number)] at hSplit
  have hNumeral := (List.cons.inj hSplit).1
  rw [hNumeral, List.append_cancel_left_eq] at hSame
  exact ⟨markedHex_inj hNumeral, (List.cons.inj hSame).2⟩

end Numeral
end ChipEight
