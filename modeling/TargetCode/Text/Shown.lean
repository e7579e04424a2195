import TargetCode.Text.Hidden

/-!
Texts as they are shown inside a message: in double quotes, with every
character that could not be seen written as an escape.
-/

namespace TargetCode.Text

/-- The hexadecimal digits of a number, without leading zeros. -/
def hex (n : Nat) : List Char :=
  Nat.toDigits 16 n

def shownChar (c : Char) : List Char :=
  match c with
  | '\x00' => ['\\', '0']
  | '\t' => ['\\', 't']
  | '\n' => ['\\', 'n']
  | '\r' => ['\\', 'r']
  | '"' => ['\\', '"']
  | '\\' => ['\\', '\\']
  | c => if isHidden c then '\\' :: 'u' :: '\x7b' :: (hex c.toNat ++ ['\x7d']) else [c]

def shown (s : String) : String :=
  String.ofList ('"' :: (s.toList.flatMap shownChar ++ ['"']))

end TargetCode.Text
