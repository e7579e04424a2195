/-!
Readers of characters, and the blanks, line ends and comments of TOML.

A reader takes what it recognises off the front of the input, or fails and
leaves the input alone. Repetition ends with the input, so every reader is
total.
-/

namespace TargetCode.Toml

abbrev Reader := StateT (List Char) Option

namespace Reader

def satisfy (p : Char → Bool) : Reader Char := fun
  | c :: rest => if p c then some (c, rest) else none
  | [] => none

def char (c : Char) : Reader Unit := do
  discard (satisfy (· = c))

def word (word : String) : Reader Unit := do
  word.toList.forM char

def oneOf (choices : List Char) : Reader Char :=
  satisfy (choices.contains ·)

/-- The characters up to the first one outside of `p`. -/
def takeWhile (p : Char → Bool) : Reader (List Char) := fun cs =>
  some (cs.takeWhile p, cs.dropWhile p)

def takeWhile1 (p : Char → Bool) : Reader (List Char) := do
  let first ← satisfy p
  let rest ← takeWhile p
  return first :: rest

def maybe {α : Type} (r : Reader α) : Reader (Option α) :=
  (some <$> r) <|> pure none

/-- The next character, which stays in the input. -/
def peek : Reader Char := fun
  | c :: rest => some (c, c :: rest)
  | [] => none

def endOfInput : Reader Unit := fun
  | [] => some ((), [])
  | _ :: _ => none

def manyUpTo {α : Type} (r : Reader α) : Nat → Reader (List α)
  | 0 => pure []
  | count + 1 =>
    (do
      let a ← r
      let rest ← manyUpTo r count
      return a :: rest) <|> pure []

/-- As many repetitions of `r` as there are. Each one takes at least a
character, so the length of the input bounds their number. -/
def many {α : Type} (r : Reader α) : Reader (List α) := do
  manyUpTo r (← get).length

/-- One or more of what `r` reads, with `separator` between two of them. -/
def separated {α : Type} (r : Reader α) (separator : Reader Unit) : Reader (List α) := do
  let first ← r
  let rest ← many (separator *> r)
  return first :: rest

end Reader

open Reader

/-! ### Blanks, line ends and comments -/

def isSpace (c : Char) : Bool :=
  c = ' ' || c = '\t'

def spaces : Reader Unit := do
  discard (takeWhile isSpace)

/-- A line feed, with or without a carriage return before it. -/
def newline : Reader Unit :=
  char '\n' <|> word "\r\n"

def lineEnd : Reader Unit :=
  newline <|> endOfInput

/-- Characters that may stand in a text as they are. -/
def isPrintable (c : Char) : Bool :=
  c = '\t' || (' ' ≤ c && c ≠ '\x7f')

def comment : Reader Unit := do
  char '#'
  discard (takeWhile isPrintable)

/-- The rest of a line after an entry. -/
def restOfLine : Reader Unit := do
  spaces
  discard (maybe comment)
  lineEnd

/-- Blanks, line ends and comments between the elements of an array. -/
def filler : Reader Unit := do
  discard <| many <|
    discard (takeWhile1 isSpace) <|> newline <|> (comment *> newline)

end TargetCode.Toml
