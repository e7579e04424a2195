import TargetCode.Binary64
import TargetCode.Decimal.Layout
import TargetCode.Text.Quoted

/-!
Invocations of methods that the running program knows by number, and the
operands they take.
-/

namespace TargetCode

inductive MethodKind where
  | static
  /-- Called on a receiver. -/
  | bound
  deriving DecidableEq, Repr

structure Method where
  id : Nat
  owner : String
  name : String
  /-- The number of arguments, the receiver not counted. -/
  arity : Nat
  kind : MethodKind
  deriving DecidableEq, Repr

inductive Constant where
  | str (value : String)
  | int (value : Int)
  | float (value : Binary64)
  | bool (value : Bool)
  | null
  | strings (values : List String)
  deriving DecidableEq, Repr

inductive Operand where
  /-- A local variable, by its number. -/
  | variable (slot : Nat)
  | global (name : String) (slot : Nat)
  | constant (value : Constant)
  /-- What an invocation returns. -/
  | result (method : Method) (receiver : Option Operand) (args : List Operand)

structure Invocation where
  method : Method
  receiver : Option Operand
  args : List Operand

def Invocation.toOperand (i : Invocation) : Operand :=
  .result i.method i.receiver i.args

/-- A number as it is shown for reference; a not-a-number has no sign. -/
def Binary64.text (x : Binary64) : String :=
  if x.isNaN then "NaN"
  else if x.isInfinite then if x.isNegative then "-inf" else "inf"
  else x.finiteText

def Constant.text : Constant → String
  | .str s => Text.quote s
  | .int i => Decimal.integer i
  | .float x => x.text
  | .bool true => "true"
  | .bool false => "false"
  | .null => "null"
  | .strings values => "[" ++ ", ".intercalate (values.map Text.quote) ++ "]"

mutual

def Operand.text : Operand → String
  | .variable slot => "l" ++ Decimal.natural slot
  | .global name _ => "@" ++ name
  | .constant value => value.text
  | .result method none args =>
    method.owner ++ "." ++ method.name ++ "(" ++ ", ".intercalate (Operand.textAll args) ++ ")"
  | .result method (some receiver) args =>
    receiver.text ++ "." ++ method.name ++ "(" ++ ", ".intercalate (Operand.textAll args) ++ ")"
termination_by structural o => o

def Operand.textAll : List Operand → List String
  | [] => []
  | o :: os => o.text :: Operand.textAll os
termination_by structural os => os

end

def Invocation.text (i : Invocation) : String :=
  i.toOperand.text

/-- The text by which an operand is recognised as an argument. -/
def Operand.spelling (o : Operand) : String :=
  o.text

def Operand.string? : Operand → Option String
  | .constant (.str s) => some s
  | _ => none

/-! ### Comparison

Operands are compared by what they stand for, so floating-point constants
are compared as numbers: an operand that holds a not-a-number does not even
equal itself. -/

def Constant.equals : Constant → Constant → Bool
  | .float x, .float y => x.equalNumbers y
  | a, b => a = b

mutual

def Operand.equals : Operand → Operand → Bool
  | .variable a, .variable b => a = b
  | .global n a, .global m b => n = m && a = b
  | .constant a, .constant b => a.equals b
  | .result m r as, .result n s bs => m = n && Operand.equalsOption r s && Operand.equalsAll as bs
  | _, _ => false
termination_by structural o => o

def Operand.equalsOption : Option Operand → Option Operand → Bool
  | none, none => true
  | some a, some b => a.equals b
  | _, _ => false
termination_by structural o => o

def Operand.equalsAll : List Operand → List Operand → Bool
  | [], [] => true
  | a :: as, b :: bs => a.equals b && Operand.equalsAll as bs
  | _, _ => false
termination_by structural os => os

end

end TargetCode
