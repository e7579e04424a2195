import TargetCode.Text.Bytes

/-!
String literals in single or double quotes.

`quote` writes a text as a literal in single quotes that every dialect reads
the same way. `isLiteral` recognises texts that are one whole literal, by
scanning their bytes, and `body?` takes the quotes off again.
-/

namespace TargetCode.Text

/-- Four hexadecimal digits, enough for every character that is escaped. -/
def fourHex (n : Nat) : List Char :=
  [n / 4096 % 16, n / 256 % 16, n / 16 % 16, n % 16].map Nat.digitChar

/-- Characters that would end a line inside a literal, or cannot be seen in
it, are escaped, and so are the quote and the backslash. -/
def quotedChar (c : Char) : List Char :=
  match c with
  | '\'' => ['\\', '\'']
  | '\\' => ['\\', '\\']
  | '\n' => ['\\', 'n']
  | '\r' => ['\\', 'r']
  | '\t' => ['\\', 't']
  | c =>
    if c.toNat < 0x20 || c = '\u2028' || c = '\u2029' then '\\' :: 'u' :: fourHex c.toNat
    else [c]

def quote (s : String) : String :=
  String.ofList ('\'' :: (s.toList.flatMap quotedChar ++ ['\'']))

def singleQuote : UInt8 := 39

def doubleQuote : UInt8 := 34

def backslash : UInt8 := 92

/-- Whether the bytes between two quotes hold no quote of that kind. A
backslash takes the next byte with it, so the last byte may not be a
backslash on its own: it would take the closing quote. -/
def closesAtEnd (quote : UInt8) : List UInt8 → Bool
  | [] => true
  | [b] => b ≠ backslash && b ≠ quote
  | b :: next :: rest =>
    if b = backslash then closesAtEnd quote rest
    else b ≠ quote && closesAtEnd quote (next :: rest)

def isLiteralBytes : List UInt8 → Bool
  | [] => false
  | first :: rest =>
    (first = singleQuote || first = doubleQuote) && rest.getLast? = some first &&
      closesAtEnd first rest.dropLast

def isLiteral (s : String) : Bool :=
  isLiteralBytes (utf8 s)

/-- What stands between the quotes of a literal, if there is anything. -/
def body? (s : String) : Option String :=
  let body := s.toList.tail.dropLast
  if isLiteral s && !body.isEmpty then some (String.ofList body) else none

end TargetCode.Text
