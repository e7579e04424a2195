import TargetCode.Decimal.Layout
import TargetCode.Expr.Basic
import TargetCode.Precedence
import TargetCode.Text.Lines
import TargetCode.Text.Quoted

/-!
The two source languages that code is written in. A dialect decides how
operators and literals are spelled, how strongly operators bind, and how
statements and their documentation look on the page.
-/

namespace TargetCode

inductive Dialect where
  | javascript
  | python
  deriving DecidableEq, Repr

namespace Dialect

/-- Python puts equality on the same level as the other comparisons. -/
def binaryLevel : Dialect → BinaryOperator → Level
  | _, .or => .logicalOr
  | _, .and => .logicalAnd
  | .javascript, .equal | .javascript, .notEqual => .equality
  | .python, .equal | .python, .notEqual => .relational
  | _, .less | _, .lessEqual | _, .greater | _, .greaterEqual | _, .elementOf => .relational
  | _, .add | _, .subtract => .additive
  | _, .multiply | _, .divide | _, .modulo => .multiplicative

/-- A chain of comparisons has a meaning of its own in Python, so there a
comparison inside a comparison is always in parentheses. -/
def associativity (d : Dialect) (o : BinaryOperator) : Associativity :=
  if d = .python && o.compares then .nonAssociative else .left

def unaryLevel : Dialect → UnaryOperator → Level
  | .python, .not => .logicalNot
  | .javascript, .not => .unary
  | _, .negate => .unary

def binarySymbol : Dialect → BinaryOperator → String
  | .javascript, .or => "||"
  | .javascript, .and => "&&"
  | .javascript, .equal => "==="
  | .javascript, .notEqual => "!=="
  | .python, .or => "or"
  | .python, .and => "and"
  | .python, .equal => "=="
  | .python, .notEqual => "!="
  | _, .less => "<"
  | _, .lessEqual => "<="
  | _, .greater => ">"
  | _, .greaterEqual => ">="
  | _, .elementOf => "in"
  | _, .add => "+"
  | _, .subtract => "-"
  | _, .multiply => "*"
  | _, .divide => "/"
  | _, .modulo => "%"

/-- The spelling of an operator that stands before its operand, with the
blank that a word needs. -/
def unarySymbol : Dialect → UnaryOperator → String
  | .javascript, .not => "!"
  | .python, .not => "not "
  | _, .negate => "-"

def float (d : Dialect) (x : Binary64) : String :=
  if x.isNaN then
    match d with
    | .javascript => "NaN"
    | .python => "float('nan')"
  else if x.isInfinite then
    (if x.isNegative then "-" else "") ++
      match d with
      | .javascript => "Infinity"
      | .python => "float('inf')"
  else x.finiteText

def literal (d : Dialect) : Literal → String
  | .str s => Text.quote s
  | .int i => Decimal.integer i
  | .float x => d.float x
  | .bool b =>
    match d, b with
    | .javascript, true => "true"
    | .javascript, false => "false"
    | .python, true => "True"
    | .python, false => "False"
  | .null =>
    match d with
    | .javascript => "null"
    | .python => "None"

def statementEnd : Dialect → String
  | .javascript => ";"
  | .python => ""

def keyword? : Dialect → Binding → Option String
  | .javascript, .constant => some "const"
  | .javascript, .variable => some "let"
  | .python, _ => none

def defaultIndent : Dialect → String
  | .javascript => "  "
  | .python => "    "

/-- A declaration without its indent. A name without a value is given
Python's empty value, since there is no other way to declare it. -/
def declarationLine (d : Dialect) (name : String) (binding : Binding) (value : Option String) :
    String :=
  let start := match d.keyword? binding with
    | some word => word ++ " " ++ name
    | none => name
  let assigned := match value, d with
    | some text, _ => " = " ++ text
    | none, .python => " = None"
    | none, .javascript => ""
  start ++ assigned ++ d.statementEnd

/-- Text that cannot close the block comment around it: a slash after a
star is kept off it by a backslash. -/
def guardClose : List Char → List Char
  | [] => []
  | [c] => [c]
  | '*' :: '/' :: rest => '*' :: '\\' :: '/' :: guardClose rest
  | c :: next :: rest => c :: guardClose (next :: rest)

/-- The documentation header of a statement: full lines, each at `indent`. -/
def docHeader (d : Dialect) (indent text : String) : String :=
  match d with
  | .javascript =>
    let guarded := String.ofList (guardClose text.toList)
    match Text.lines guarded with
    | [] | [_] => indent ++ "/** " ++ Text.trim guarded ++ " */\n"
    | lines =>
      indent ++ "/**\n" ++ String.join (lines.map fun line => indent ++ " * " ++ line ++ "\n") ++
        indent ++ " */\n"
  | .python => String.join ((Text.lines text).map fun line => indent ++ "# " ++ line ++ "\n")

end Dialect

end TargetCode
