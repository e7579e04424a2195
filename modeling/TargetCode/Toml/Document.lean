import TargetCode.Toml.Scalars
import TargetCode.Toml.Table

/-!
TOML documents, from text to tables. The reader accepts the documents of TOML
1.0 with bounds on their depth, and no theorem is about it.
-/

namespace TargetCode.Toml

open Reader

/-- How deep arrays and tables in braces may be nested, and how many parts a
dotted key may have. -/
def deepest : Nat := 79

def isBare (c : Char) : Bool :=
  c.isAlphanum || c = '-' || c = '_'

def simpleKey : Reader String :=
  basicString <|> literalString <|> (String.ofList <$> takeWhile1 isBare)

/-- The parts of a key between dots: all but the last one, and the last. -/
def dottedKey : Reader (List String × String) := do
  let parts ← Reader.separated (spaces *> simpleKey <* spaces) (char '.')
  match parts.getLast? with
  | some key => if parts.length ≤ deepest then return (parts.dropLast, key) else failure
  | none => failure

/-- The elements of an array, whose last one may be followed by a comma. -/
def arrayBody (value : Reader Item) : Reader Item := do
  let elements ← maybe (Reader.separated (filler *> value <* filler) (char ','))
  if elements.isSome then discard (maybe (char ','))
  filler
  char ']'
  return .array (elements.getD [])

def pair (value : Reader Item) : Reader Pair := do
  let (path, key) ← dottedKey
  char '='
  spaces
  let item ← value
  return ⟨path, key, item⟩

/-- The pairs of a table in braces, all on one line. -/
def inlineBody (value : Reader Item) : Reader Item := do
  let pairs ← maybe (Reader.separated (pair value <* spaces) (char ','))
  spaces
  char '\x7d'
  match Entries.insertAll? [] (pairs.getD []) with
  | some entries => return .inline entries
  | none => failure

def scalar : Reader Item :=
  (.string <$> string) <|>
  (datetime *> pure .datetime) <|>
  (float *> pure .float) <|>
  (.integer <$> integer) <|>
  (word "true" *> pure (.boolean true)) <|>
  (word "false" *> pure (.boolean false))

/-- A value in which arrays and tables in braces are nested at most `depth`
deep. -/
def value : Nat → Reader Item
  | 0 => scalar
  | depth + 1 => do
    match ← peek with
    | '[' => char '['; arrayBody (value depth)
    | '\x7b' => char '\x7b'; inlineBody (value depth)
    | _ => scalar

inductive Line where
  | header (repeated : Bool) (path : List String) (key : String)
  | pair (pair : Pair)

def header : Reader Line :=
  (do
    word "[["
    let (path, key) ← dottedKey
    word "]]"
    restOfLine
    return .header true path key) <|>
  (do
    char '['
    let (path, key) ← dottedKey
    char ']'
    restOfLine
    return .header false path key)

def line : Reader (Option Line) := do
  let found ← match ← peek with
    | '#' => comment *> lineEnd *> pure none
    | '[' => some <$> header
    | '\n' | '\r' => newline *> pure none
    | _ => do
      let p ← pair (value deepest)
      restOfLine
      pure (some (.pair p))
  spaces
  return found

def document : Reader (List Line) := do
  discard (maybe (char '\ufeff'))
  spaces
  let found ← many line
  endOfInput
  return found.filterMap id

/-- The pairs before the first header, and the parts that headers start. -/
def parts : List Line → List Pair × List Part
  | [] => ([], [])
  | .pair p :: lines =>
    let (pairs, rest) := parts lines
    (p :: pairs, rest)
  | .header repeated path key :: lines =>
    let (pairs, rest) := parts lines
    ([], ⟨repeated, path, key, pairs⟩ :: rest)

/-- The tables of a document, unless the text is no document or an entry
contradicts an earlier one. -/
def read? (text : String) : Option Entries := do
  let (lines, _) ← document text.toList
  let (pairs, rest) := parts lines
  let root ← Entries.insertAll? [] pairs
  rest.foldlM Entries.addPart? root

end TargetCode.Toml
