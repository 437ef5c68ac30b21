/-!
# Random bytes

The machine draws random bytes from an endless stream of 32-bit words.  A draw
takes the next word and uses its low eight bits.
-/

namespace ChipEight

/-- A stream of random words and the number of words taken from it. -/
structure Entropy where
  /-- The words of the stream. -/
  words : Nat → UInt32
  /-- How many words have been taken. -/
  drawn : Nat

namespace Entropy

/-- A stream at its beginning. -/
def ofWords (words : Nat → UInt32) : Entropy := ⟨words, 0⟩

/-- The stream that repeats a list of words for ever; without any words it
consists of zeros. -/
def cycle (words : List UInt32) : Entropy :=
  ofWords fun position => words[position % words.length]?.getD 0

/-- The byte at a position of the stream. -/
def byteAt (entropy : Entropy) (position : Nat) : UInt8 :=
  (entropy.words position).toUInt8

/-- The next byte and the stream after it. -/
def draw (entropy : Entropy) : UInt8 × Entropy :=
  (entropy.byteAt entropy.drawn, { entropy with drawn := entropy.drawn + 1 })

end Entropy
end ChipEight
