import ChipEight.Storage.Problem

/-!
# Canonical prefix codes

A prefix code gives every symbol a word of bits so that no word begins another
one.  It is a binary tree: a word is the path to the leaf of its symbol.

A canonical code is determined by the lengths of its words alone.  Words of one
length are consecutive in the order of their symbols, and shorter words come
before longer ones.  So the tree is built from its deepest level upwards: on every
level the leaves stand to the left of the inner nodes, and the nodes of a level are
paired off from left to right into the nodes above.

These are the codes of the deflate format, which gives the lengths of the words only and lays
down this order.  Which lengths are refused is up to the decoder of the archive reader.
-/

namespace ChipEight
namespace Storage

/-- A prefix code as a tree; the format reads a word from its first bit on. -/
inductive PrefixCode where
  /-- No word goes this way. -/
  | empty
  /-- The word of a symbol ends here. -/
  | leaf (symbol : Nat)
  /-- Words go on with a zero or with a one. -/
  | node (zero one : PrefixCode)

namespace PrefixCode

/-- The way that a bit leads from a tree. -/
def follow : PrefixCode → Bool → PrefixCode
  | .node zero one, bit => if bit then one else zero
  | _, _ => .empty

/-- Reads one word off a sequence of bits, which gives its symbol and the rest.  It is
an error if the bits leave all words, and another one if they end before that; the decoder tells
the two apart, since more bits could follow in the second case. -/
def next (code : PrefixCode) : List Bool → Except ContentProblem (Nat × List Bool)
  | [] => .error .incomplete
  | bit :: bits =>
    match code.follow bit with
    | .empty => .error .corrupt
    | .leaf symbol => .ok (symbol, bits)
    | .node zero one => (node zero one).next bits

/-- Pairs neighbouring trees off; one that is left over has nothing beside it.  That makes words
of one length consecutive, as the format has them. -/
def pairs : List PrefixCode → List PrefixCode
  | [] => []
  | [last] => [.node last .empty]
  | zero :: one :: rest => .node zero one :: pairs rest

/-- The leaves of the symbols whose words have a given length, in the order of the symbols, as
the format has it. -/
def leaves (lengths : List Nat) (length : Nat) : List PrefixCode :=
  (lengths.zipIdx.filter fun word => word.1 == length).map fun word => .leaf word.2

/-- The longest word that a code may have in the format. -/
def maxLength : Nat := 15

/-- The trees at the depth that is `height` levels above the deepest one. -/
def level (lengths : List Nat) : Nat → List PrefixCode
  | 0 => leaves lengths maxLength
  | height + 1 => leaves lengths (maxLength - (height + 1)) ++ pairs (level lengths height)

/-- The part of all words of the greatest length that a code takes up. -/
def weight (lengths : List Nat) : Nat :=
  lengths.foldr
    (fun length total => if length = 0 then total else 1 <<< (maxLength - length) + total) 0

/-- Whether words of the given lengths take up everything, so that every sequence of
bits begins with one of them or ends within one. -/
def isComplete (lengths : List Nat) : Bool := weight lengths == 1 <<< maxLength

/-- Whether a code with the given word lengths may be used: it is complete, or it has
no words, or it has a single word of one bit.  The format asks for complete codes, with an
exception for a code of one distance; the decoder makes it for both codes, and for none as
well. -/
def isUsable (lengths : List Nat) : Bool :=
  let used := lengths.filter (0 < ·)
  isComplete lengths || used == [] || used == [1]

/-- The code with the given word lengths, where zero stands in the format for a symbol without
a word. -/
def ofLengths (lengths : List Nat) : PrefixCode :=
  (pairs (level lengths (maxLength - 1))).headD .empty

end PrefixCode
end Storage
end ChipEight
