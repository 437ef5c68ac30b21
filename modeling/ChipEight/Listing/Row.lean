import ChipEight.Numeral
import ChipEight.Opcode

/-!
# Rows of a listing

Long sequences of values are listed in rows of a fixed number of values, each
headed by the span of positions that it covers.

Bytes are listed sixteen to a row, as words with the high byte first.  Rows of
nothing but zeros are not listed one by one: each maximal run of them becomes a
single row that covers the whole run.  The rows are data first
(`Listing.memoryRows`) and text afterwards (`MemoryRow.text`).
-/

namespace ChipEight
namespace Listing

/-- Cuts a list into pieces of `size` values; the last piece may be shorter. -/
def pieces {α : Type} (size : Nat) : List α → List (List α)
  | [] => []
  | first :: later =>
    (first :: later.take (size - 1)) :: pieces size (later.drop (size - 1))
termination_by values => values.length
decreasing_by
  simp only [List.length_drop, List.length_cons]
  omega

/-- The positions from `first` to `last`, both included. -/
structure Span where
  first : Nat
  last : Nat
deriving DecidableEq

/-- The head of a row: the span that it covers. -/
def Span.text (span : Span) : List Char :=
  Numeral.markedHex 4 span.first ++ [' ', '-', ' '] ++ Numeral.markedHex 4 span.last ++ [' ', ':']

/-- Heads each piece of a sequence with the positions that it covers, the first of
which is `start`. -/
def headed {α : Type} (start : Nat) : List (List α) → List (Span × List α)
  | [] => []
  | piece :: later =>
    (⟨start, start + piece.length - 1⟩, piece) :: headed (start + piece.length) later

/-- Numbers in one row, each with at least four digits. -/
def numbersText (values : List Nat) : List Char :=
  List.intercalate [' '] (values.map (Numeral.markedHex 4))

/-- Numbers, eight to a row. -/
def numberRows (values : List Nat) : List (List Char) :=
  (headed 0 (pieces 8 values)).map fun row => row.1.text ++ ' ' :: numbersText row.2

/-- The word for a level. -/
def levelText (level : Bool) : List Char :=
  if level then ['t', 'r', 'u', 'e'] else ['f', 'a', 'l', 's', 'e']

/-- Fills a word up to six places with blanks at its end. -/
def filled (word : List Char) : List Char :=
  word ++ List.replicate (6 - word.length) ' '

/-- Levels in one row, all but the last filled up to the width of a number. -/
def levelsText : List Bool → List Char
  | [] => []
  | [last] => levelText last
  | level :: later => filled (levelText level) ++ ' ' :: levelsText later

/-- Levels, eight to a row. -/
def levelRows (levels : List Bool) : List (List Char) :=
  (headed 0 (pieces 8 levels)).map fun row => row.1.text ++ ' ' :: levelsText row.2

/-- The words of a sequence of bytes, high byte first; a byte that is left over is
the high byte of a word whose low byte is zero. -/
def words : List UInt8 → List Opcode
  | [] => []
  | [high] => [Opcode.ofBytes high 0]
  | high :: low :: later => Opcode.ofBytes high low :: words later

/-- Fills a row of words up to eight with zeros. -/
def filledWords (row : List Opcode) : List Opcode :=
  row ++ List.replicate (8 - row.length) 0

inductive MemoryRow where
  /-- Sixteen bytes, or fewer at the end, as eight words. -/
  | words (span : Span) (values : List Opcode)
  /-- Nothing but zeros. -/
  | zeros (span : Span)
deriving DecidableEq

namespace MemoryRow

/-- The row of one piece of the memory. -/
def ofBytes (span : Span) (bytes : List UInt8) : MemoryRow :=
  if bytes.all (· == 0) then .zeros span else .words span (filledWords (Listing.words bytes))

/-- Puts a row in front of others; two neighbouring rows of zeros become one. -/
def before : MemoryRow → List MemoryRow → List MemoryRow
  | .zeros span, .zeros later :: rows => .zeros ⟨span.first, later.last⟩ :: rows
  | row, rows => row :: rows

def span : MemoryRow → Span
  | .words span _ => span
  | .zeros span => span

/-- What a row of zeros shows in place of its words. -/
def zerosText : List Char :=
  Numeral.markedHex 4 0 ++ List.replicate 20 ' ' ++ ['.', '.', '.']
    ++ List.replicate 20 ' ' ++ Numeral.markedHex 4 0

/-- What a row shows after its head. -/
def content : MemoryRow → List Char
  | .words _ values => numbersText (values.map UInt16.toNat)
  | .zeros _ => zerosText

def text (row : MemoryRow) : List Char :=
  row.span.text ++ ' ' :: row.content

end MemoryRow

def memoryRows (bytes : List UInt8) : List MemoryRow :=
  (headed 0 (pieces 16 bytes)).foldr
    (fun row rows => (MemoryRow.ofBytes row.1 row.2).before rows) []

end Listing
end ChipEight
