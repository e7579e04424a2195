/-!
Texts as UTF-8 bytes: their encoding, their length, and the part between two
byte offsets.
-/

namespace TargetCode.Text

def utf8 (s : String) : List UInt8 :=
  s.toList.flatMap String.utf8EncodeChar

def byteLength (s : String) : Nat :=
  (utf8 s).length

/-- The characters that fill the first `n` bytes, and the rest. There is no
such split if `n` exceeds the text or falls inside a character. -/
def splitAtByte? : List Char → Nat → Option (List Char × List Char)
  | cs, 0 => some ([], cs)
  | [], _ + 1 => none
  | c :: cs, n + 1 =>
    if c.utf8Size ≤ n + 1 then
      (splitAtByte? cs (n + 1 - c.utf8Size)).map fun (first, rest) => (c :: first, rest)
    else none

/-- The part of a text from byte `start` up to byte `stop`, if both are
boundaries between characters and stand in this order. -/
def slice? (s : String) (start stop : Nat) : Option String :=
  if start ≤ stop then
    (splitAtByte? s.toList start).bind fun (_, rest) =>
      (splitAtByte? rest (stop - start)).map fun (middle, _) => String.ofList middle
  else none

end TargetCode.Text
