import ChipEight.Storage.PrefixCode

/-!
# Unpacking a deflated stream

A deflated stream is a sequence of blocks of bits.  A block either holds bytes as
they are, or it holds words of two prefix codes: bytes, the end of the block, and
runs that repeat what stands some distance back in the output.  The codes are
either fixed or described at the start of the block.

This is the deflate format, which ZIP archives use for their packing number eight.  Where a
stream does not keep to the format, it is read as the decoder of the archive reader does it.  A
run may reach back beyond the start of the output, where there are zeros.  Whatever follows the
last block is left alone.  A stream that ends before its last block does is incomplete, unless
what there is of it is corrupt already.
-/

namespace ChipEight
namespace Storage
namespace Inflate

/-- A reading from a sequence of bits, which can fail. -/
abbrev Reading := StateT (List Bool) (Except ContentProblem)

/-- The bits of a sequence of bytes.  The format has the lowest bit of every byte first. -/
def bitsOf (bytes : List UInt8) : List Bool :=
  bytes.flatMap fun byte => (List.range 8).map byte.toNat.testBit

/-- Takes a number of bits off a sequence and reads them as a number, with the lowest bit
first as the format has it for everything but words. -/
def takeNumber : Nat → List Bool → Except ContentProblem (Nat × List Bool)
  | 0, bits => .ok (0, bits)
  | _ + 1, [] => .error .incomplete
  | count + 1, bit :: bits =>
    (takeNumber count bits).map fun taken => (bit.toNat + 2 * taken.1, taken.2)

def number (width : Nat) : Reading Nat := takeNumber width

/-- Reads a word, which the format has with its first bit first. -/
def symbol (code : PrefixCode) : Reading Nat := code.next

/-- Reads a number whose base and number of further bits a table of the format gives for a
symbol.  The format reserves the symbols that are not in its tables. -/
def fromTable (table : List (Nat × Nat)) (symbol : Nat) : Reading Nat :=
  match table[symbol]? with
  | some (base, width) => do return base + (← number width)
  | none => throw .corrupt

/-- The lengths of runs in the format: the least length of each symbol and the width of what
is added to it. -/
def lengthTable : List (Nat × Nat) :=
  [(3, 0), (4, 0), (5, 0), (6, 0), (7, 0), (8, 0), (9, 0), (10, 0), (11, 1), (13, 1),
   (15, 1), (17, 1), (19, 2), (23, 2), (27, 2), (31, 2), (35, 3), (43, 3), (51, 3),
   (59, 3), (67, 4), (83, 4), (99, 4), (115, 4), (131, 5), (163, 5), (195, 5), (227, 5),
   (258, 0)]

/-- The distances of runs in the format: the least distance of each symbol and the width of
what is added to it. -/
def distanceTable : List (Nat × Nat) :=
  [(1, 0), (2, 0), (3, 0), (4, 0), (5, 1), (7, 1), (9, 2), (13, 2), (17, 3), (25, 3),
   (33, 4), (49, 4), (65, 5), (97, 5), (129, 6), (193, 6), (257, 7), (385, 7), (513, 8),
   (769, 8), (1025, 9), (1537, 9), (2049, 10), (3073, 10), (4097, 11), (6145, 11),
   (8193, 12), (12289, 12), (16385, 13), (24577, 13)]

/-- Repeats what stands a distance back in the output, byte by byte, so that a run may
repeat its own beginning, which the format allows.  It does not allow distances beyond the start;
the decoder finds the zeros there that its window begins with. -/
def repeatBack (distance : Nat) : Nat → Array UInt8 → Array UInt8
  | 0, output => output
  | length + 1, output =>
    -- before the start of the output there are zeros
    let byte := if distance ≤ output.size then output[output.size - distance]?.getD 0 else 0
    repeatBack distance length (output.push byte)

/-- Reads the words of a block up to its end.  Every word takes at least one bit, so
the number of words is at most the number of bits, and after so many words no bits
are left. -/
def coded (literals distances : PrefixCode) : Nat → Array UInt8 → Reading (Array UInt8)
  | 0, _ => throw .incomplete
  | limit + 1, output => do
    let word ← symbol literals
    if word < 256 then coded literals distances limit (output.push (UInt8.ofNat word))
    else if word = 256 then return output
    else
      let length ← fromTable lengthTable (word - 257)
      let distance ← fromTable distanceTable (← symbol distances)
      coded literals distances limit (repeatBack distance length output)

/-- Reads the words of a block up to its end, with as many words as there are bits. -/
def codedBlock (literals distances : PrefixCode) (output : Array UInt8) :
    Reading (Array UInt8) := do
  coded literals distances (← get).length output

/-- Takes a number of bytes as they are. -/
def plain : Nat → Array UInt8 → Reading (Array UInt8)
  | 0, output => return output
  | count + 1, output => do plain count (output.push (UInt8.ofNat (← number 8)))

/-- Reads a block of bytes as they are.  In the format it starts at the next full byte with its
length and the complement of its length. -/
def plainBlock (output : Array UInt8) : Reading (Array UInt8) := do
  modify fun bits => bits.drop (bits.length % 8)
  let length ← number 16
  let complement ← number 16
  if length + complement = 0xFFFF then plain length output else throw .corrupt

/-- The word lengths of the fixed code of the format for bytes and run lengths. -/
def fixedLiteralLengths : List Nat :=
  List.replicate 144 8 ++ List.replicate 112 9 ++ List.replicate 24 7 ++ List.replicate 8 8

/-- The word lengths of the fixed code of the format for distances. -/
def fixedDistanceLengths : List Nat := List.replicate 32 5

/-- Reads a block with the fixed codes. -/
def fixedBlock (output : Array UInt8) : Reading (Array UInt8) :=
  codedBlock (.ofLengths fixedLiteralLengths) (.ofLengths fixedDistanceLengths) output

/-- The order in which the format has the word lengths of the describing code. -/
def describingOrder : List Nat :=
  [16, 17, 18, 0, 8, 7, 9, 6, 10, 5, 11, 4, 12, 3, 13, 2, 14, 1, 15]

/-- Reads the word lengths of the describing code, the first `count` of its order. -/
def describingLengths (count : Nat) : Reading (List Nat) := do
  let given ← (describingOrder.take count).mapM fun word => do return (word, ← number 3)
  return (List.range 19).map fun word => (given.lookup word).getD 0

/-- Reads word lengths that are themselves written in a code, until there are `total`
of them.  Three of its words repeat in the format the length before them or zero.  A repetition
with nothing before it, or that goes beyond the total, is refused. -/
def describedLengths (code : PrefixCode) (total : Nat) :
    Nat → List Nat → Reading (List Nat)
  | 0, _ => throw .corrupt
  | limit + 1, lengths =>
    if total ≤ lengths.length then
      if lengths.length = total then return lengths else throw .corrupt
    else do
      let word ← symbol code
      match word with
      | 16 =>
        match lengths.getLast? with
        | none => throw .corrupt
        | some last =>
          let count := 3 + (← number 2)
          describedLengths code total limit (lengths ++ List.replicate count last)
      | 17 =>
        let count := 3 + (← number 3)
        describedLengths code total limit (lengths ++ List.replicate count 0)
      | 18 =>
        let count := 11 + (← number 7)
        describedLengths code total limit (lengths ++ List.replicate count 0)
      | length => describedLengths code total limit (lengths ++ [length])

/-- Reads a block that describes its codes.  The decoder refuses numbers of words that are
reserved in the format, and a describing code that is not complete. -/
def describedBlock (output : Array UInt8) : Reading (Array UInt8) := do
  let literalCount := 257 + (← number 5)
  let distanceCount := 1 + (← number 5)
  let describingCount := 4 + (← number 4)
  if 286 < literalCount ∨ 30 < distanceCount then throw .corrupt
  let describing ← describingLengths describingCount
  if !PrefixCode.isComplete describing then throw .corrupt
  let total := literalCount + distanceCount
  let lengths ← describedLengths (.ofLengths describing) total (total + 1) []
  let literals := lengths.take literalCount
  let distances := lengths.drop literalCount
  if !PrefixCode.isUsable literals || !PrefixCode.isUsable distances then throw .corrupt
  codedBlock (.ofLengths literals) (.ofLengths distances) output

/-- Reads blocks up to the one that is marked as the last; the format reserves the fourth kind
of block.  Every block takes some
bits, so the number of blocks is at most the number of bits, and after so many blocks
no bits are left. -/
def blocks : Nat → Array UInt8 → Reading (Array UInt8)
  | 0, _ => throw .incomplete
  | limit + 1, output => do
    let isLast ← number 1
    let unpacked ← match ← number 2 with
      | 0 => plainBlock output
      | 1 => fixedBlock output
      | 2 => describedBlock output
      | _ => throw .corrupt
    if isLast = 1 then return unpacked else blocks limit unpacked

/-- The bytes that a deflated stream stands for, if it is a proper one. -/
def unpack (bytes : List UInt8) : Except ContentProblem (List UInt8) :=
  let bits := bitsOf bytes
  ((blocks bits.length #[]).run bits).map fun done => done.1.toList

end Inflate
end Storage
end ChipEight
