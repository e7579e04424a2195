/-!
The lines of a text and the white space around it.
-/

namespace TargetCode.Text

/-- The lines of a text of which `seen` was read since the last line break,
in reverse. A line ends with a line feed, and a carriage return right before
it belongs to the break. No line follows a final break. -/
def linesFrom (seen : List Char) : List Char → List (List Char)
  | [] => if seen.isEmpty then [] else [seen.reverse]
  | '\n' :: rest =>
    (match seen with
      | '\r' :: line => line.reverse
      | line => line.reverse) :: linesFrom [] rest
  | c :: rest => linesFrom (c :: seen) rest

def lines (s : String) : List String :=
  (linesFrom [] s.toList).map String.ofList

/-- The characters of the property White_Space. -/
def isBlank (c : Char) : Bool :=
  let n := c.toNat
  (0x9 ≤ n && n ≤ 0xd) || n = 0x20 || n = 0x85 || n = 0xa0 || n = 0x1680 ||
    (0x2000 ≤ n && n ≤ 0x200a) || n = 0x2028 || n = 0x2029 || n = 0x202f || n = 0x205f ||
    n = 0x3000

def trim (s : String) : String :=
  String.ofList ((s.toList.dropWhile isBlank).reverse.dropWhile isBlank).reverse

end TargetCode.Text
