import TargetCode.Toml.Reader

/-!
The four forms of TOML strings: basic and literal, each on one line or on
several.
-/

namespace TargetCode.Toml

open Reader

def hexDigit? (c : Char) : Option Nat :=
  if c.isDigit then some (c.toNat - '0'.toNat)
  else if 'a' ≤ c && c ≤ 'f' then some (c.toNat - 'a'.toNat + 10)
  else if 'A' ≤ c && c ≤ 'F' then some (c.toNat - 'A'.toNat + 10)
  else none

def hexNumber : Nat → Nat → Reader Nat
  | 0, value => pure value
  | count + 1, value => do
    let c ← satisfy fun c => (hexDigit? c).isSome
    hexNumber count (value * 16 + (hexDigit? c).getD 0)

/-- The character with the code point read by `code`, unless it is no
character. -/
def codePoint (code : Reader Nat) : Reader Char := do
  let n ← code
  if n.isValidChar then return Char.ofNat n else failure

def escaped : Reader Char := do
  char '\\'
  match ← satisfy fun _ => true with
  | 'b' => return '\x08'
  | 't' => return '\t'
  | 'n' => return '\n'
  | 'f' => return '\x0c'
  | 'r' => return '\r'
  | '"' => return '"'
  | '\\' => return '\\'
  | 'u' => codePoint (hexNumber 4 0)
  | 'U' => codePoint (hexNumber 8 0)
  | _ => failure

def isBasic (c : Char) : Bool :=
  isPrintable c && c ≠ '"' && c ≠ '\\'

def isLiteral (c : Char) : Bool :=
  isPrintable c && c ≠ '\''

def basicString : Reader String := do
  char '"'
  let body ← many (satisfy isBasic <|> escaped)
  char '"'
  return String.ofList body

/-- A string in single quotes on one line, without escapes. -/
def literalString : Reader String := do
  char '\''
  let body ← takeWhile isLiteral
  char '\''
  return String.ofList body

/-- A backslash at the end of a line, with the line end and all blanks and
line ends after it. It stands for nothing. -/
def lineContinuation : Reader (List Char) := do
  char '\\'
  spaces
  newline
  discard <| many <| discard (takeWhile1 isSpace) <|> newline
  return []

/-- One or two quotes that do not end a string of several lines: the string
ends at the last three quotes of a run. -/
def innerQuotes (quote : Char) : Reader (List Char) := do
  let run ← takeWhile (· = quote)
  if run.length ≤ 2 && 0 < run.length then return run else failure

/-- The end of a string of several lines, after at most two quotes that
belong to it. -/
def closingQuotes (quote : Char) : Reader (List Char) := fun cs =>
  let run := min (cs.takeWhile (· = quote)).length 5
  if 3 ≤ run then some (List.replicate (run - 3) quote, cs.drop run) else none

/-- A string between tripled quotes. A line end right after the opening
quotes is not part of it, and any other line end is a line feed. -/
def multiline (quote : Char) (piece : Reader (List Char)) : Reader String := do
  word (String.ofList [quote, quote, quote])
  discard (maybe newline)
  let body ← many (piece <|> (newline *> pure ['\n']) <|> innerQuotes quote)
  let last ← closingQuotes quote
  return String.ofList (body.flatten ++ last)

def multilineBasic : Reader String :=
  multiline '"' <|
    takeWhile1 isBasic <|> lineContinuation <|> (List.singleton <$> escaped)

def multilineLiteral : Reader String :=
  multiline '\'' (takeWhile1 isLiteral)

def string : Reader String :=
  multilineBasic <|> basicString <|> multilineLiteral <|> literalString

end TargetCode.Toml
