/-!
# Names of archive entries

The bytes of an entry's name are read in one of two ways.  An entry that says so has
its name in UTF-8; what is no UTF-8 becomes a replacement character, one for each
longest beginning of a character.  Any other name is in code page 437, where every
byte is a character.

The ZIP format has these two encodings and the flag that tells them apart.  The archive reader
decodes UTF-8 without failing, and the replacement of what it cannot read follows the
recommended practice of the Unicode standard.
-/

namespace ChipEight
namespace Storage
namespace EntryName

/-- The upper half of code page 437, from byte 128 on. -/
def upperHalf : List Char :=
  ("ÇüéâäàåçêëèïîìÄÅÉæÆôöòûùÿÖÜ¢£¥₧ƒ"
    ++ "áíóúñÑªº¿⌐¬½¼¡«»░▒▓│┤╡╢╖╕╣║╗╝╜╛┐"
    ++ "└┴┬├─┼╞╟╚╔╩╦╠═╬╧╨╤╥╙╘╒╓╫╪┘┌█▄▌▐▀"
    ++ "αßΓπΣσµτΦΘΩδ∞φε∩≡±≥≤⌠⌡÷≈°∙·√ⁿ²■\u00a0").toList

/-- The character of a byte in code page 437, whose lower half is ASCII; the control characters
of that half stay what they are. -/
def codePageChar (byte : UInt8) : Char :=
  if byte.toNat < 128 then Char.ofNat byte.toNat
  else upperHalf[byte.toNat - 128]?.getD (Char.ofNat byte.toNat)

/-- The replacement character of Unicode, which stands for what cannot be read. -/
def replacement : Char := Char.ofNat 0xFFFD

/-- The bytes that may follow the first byte of a longer character, as ranges; a byte
that begins no longer character has none.  These are the well-formed byte sequences of UTF-8,
without overlong forms, surrogates and what is beyond the last character. -/
def followers (lead : UInt8) : List (Nat × Nat) :=
  let any := (0x80, 0xBF)
  let lead := lead.toNat
  if lead < 0xC2 then []
  else if lead < 0xE0 then [any]
  else if lead = 0xE0 then [(0xA0, 0xBF), any]
  else if lead = 0xED then [(0x80, 0x9F), any]
  else if lead < 0xF0 then [any, any]
  else if lead = 0xF0 then [(0x90, 0xBF), any, any]
  else if lead < 0xF4 then [any, any, any]
  else if lead = 0xF4 then [(0x80, 0x8F), any, any]
  else []

/-- The bits of a character that its first byte holds, where `count` bytes follow. -/
def leadBits (lead : UInt8) (count : Nat) : Nat :=
  lead.toNat % (1 <<< (6 - count))

/-- The longest beginning of a sequence whose bytes lie in the given ranges.  Of an ill-formed
character, one replacement stands for as much. -/
def matching : List (Nat × Nat) → List UInt8 → List UInt8
  | (low, high) :: ranges, byte :: bytes =>
    if low ≤ byte.toNat ∧ byte.toNat ≤ high then byte :: matching ranges bytes else []
  | _, _ => []

/-- The character that begins with a byte, and how many of the following bytes belong
to it. -/
def unicodeChar (lead : UInt8) (rest : List UInt8) : Char × Nat :=
  if lead.toNat < 0x80 then (Char.ofNat lead.toNat, 0)
  else
    let ranges := followers lead
    let found := matching ranges rest
    if ranges ≠ [] ∧ found.length = ranges.length then
      let value := found.foldl (fun bits byte => 64 * bits + byte.toNat % 64)
        (leadBits lead ranges.length)
      (Char.ofNat value, found.length)
    else (replacement, found.length)

/-- The characters of a name in UTF-8, where decoding goes on behind what could not be read. -/
def unicodeChars : List UInt8 → List Char
  | [] => []
  | lead :: rest =>
    let first := unicodeChar lead rest
    first.1 :: unicodeChars (rest.drop first.2)
termination_by bytes => bytes.length
decreasing_by
  simp only [List.length_drop, List.length_cons]
  omega

/-- The name that bytes stand for, either in UTF-8 or in code page 437. -/
def ofBytes (isUnicode : Bool) (bytes : List UInt8) : String :=
  String.ofList (if isUnicode then unicodeChars bytes else bytes.map codePageChar)

end EntryName
end Storage
end ChipEight
