import TargetCode.Toml.Reader
import TargetCode.Toml.Strings

/-!
TOML numbers, dates and times.
-/

namespace TargetCode.Toml

open Reader

/-- Digits with single underscores between them. -/
def digitRun (isDigit : Char → Bool) : Reader (List Char) := do
  let first ← satisfy isDigit
  let rest ← many (satisfy isDigit <|> (char '_' *> satisfy isDigit))
  return first :: rest

def numeral (base : Nat) (digits : List Char) : Nat :=
  digits.foldl (fun n c => n * base + (hexDigit? c).getD 0) 0

/-- A whole number in decimal without a leading zero. -/
def decimalDigits : Reader (List Char) := do
  match ← peek with
  | '0' => char '0'; return ['0']
  | _ => digitRun Char.isDigit

/-- Whether a sign was read, and a minus sign at that. -/
def sign : Reader Bool := do
  return (← maybe (oneOf ['+', '-'])) = some '-'

def signed (negative : Bool) (n : Nat) : Int :=
  if negative then -n else n

def within64 (i : Int) : Reader Int :=
  if -0x8000000000000000 ≤ i && i ≤ 0x7fffffffffffffff then pure i else failure

def prefixed (mark : String) (base : Nat) (isDigit : Char → Bool) : Reader Int := do
  word mark
  let digits ← digitRun isDigit
  within64 (numeral base digits)

def integer : Reader Int :=
  prefixed "0x" 16 (fun c => (hexDigit? c).isSome) <|>
  prefixed "0o" 8 (fun c => '0' ≤ c && c ≤ '7') <|>
  prefixed "0b" 2 (fun c => c = '0' || c = '1') <|>
  do
    let negative ← sign
    let digits ← decimalDigits
    within64 (signed negative (numeral 10 digits))

/-- Whether `n * 10 ^ e` is so large that the nearest floating-point number
is infinite: it is at least halfway from the largest finite one to `2 ^ 1024`. -/
def overflows (n : Nat) (e : Int) : Bool :=
  let lead := (Nat.toDigits 10 n).length + e
  if n = 0 || lead < 309 then false
  else if 309 < lead then true
  else
    let bound := 0x3fffffffffffff * Nat.pow 2 970
    bound * Nat.pow 10 (-e).toNat ≤ n * Nat.pow 10 e.toNat

def exponentPart : Reader Int := do
  discard (oneOf ['e', 'E'])
  let negative ← sign
  let digits ← digitRun Char.isDigit
  return signed negative (numeral 10 digits)

def fractionPart : Reader (List Char) := do
  char '.'
  digitRun Char.isDigit

/-- A number with a fraction or an exponent. A positive number that would be
infinite is refused. -/
def decimalFloat : Reader Unit := do
  let negative ← sign
  let whole ← decimalDigits
  let fraction ← maybe fractionPart
  let exponent ← maybe exponentPart
  if fraction.isNone && exponent.isNone then failure
  let places := (fraction.getD []).length
  let n := numeral 10 (whole ++ fraction.getD [])
  if !negative && overflows n (exponent.getD 0 - places) then failure

def specialFloat : Reader Unit := do
  discard sign
  word "inf" <|> word "nan"

def float : Reader Unit :=
  decimalFloat <|> specialFloat

/-- A number in exactly `count` decimal digits, between two bounds. -/
def fixedNumber (count low high : Nat) : Reader Nat := do
  let digits ← (List.range count).mapM fun _ => satisfy Char.isDigit
  let n := numeral 10 digits
  if low ≤ n && n ≤ high then return n else failure

def isLeapYear (year : Nat) : Bool :=
  year % 4 = 0 && (year % 100 ≠ 0 || year % 400 = 0)

def daysInMonth (year month : Nat) : Nat :=
  match month with
  | 2 => if isLeapYear year then 29 else 28
  | 4 | 6 | 9 | 11 => 30
  | _ => 31

def date : Reader Unit := do
  let year ← fixedNumber 4 0 9999
  char '-'
  let month ← fixedNumber 2 1 12
  char '-'
  let day ← fixedNumber 2 1 31
  if daysInMonth year month < day then failure

/-- A time of day. A leap second is allowed in any minute. -/
def time : Reader Unit := do
  discard (fixedNumber 2 0 23)
  char ':'
  discard (fixedNumber 2 0 59)
  char ':'
  discard (fixedNumber 2 0 60)
  discard <| maybe do
    char '.'
    takeWhile1 Char.isDigit

def offset : Reader Unit :=
  discard (oneOf ['Z', 'z']) <|> do
    discard (oneOf ['+', '-'])
    discard (fixedNumber 2 0 23)
    char ':'
    discard (fixedNumber 2 0 59)

/-- A date, a time, or both with or without an offset. -/
def datetime : Reader Unit :=
  (do
    date
    discard <| maybe do
      discard (oneOf ['T', 't', ' '])
      time
      maybe offset) <|> time

end TargetCode.Toml
