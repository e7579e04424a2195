import TargetCode.Dialect

/-!
The text of an expression, with the parentheses that the levels of its
operators ask for and no others. Attached statements are not part of it.
-/

namespace TargetCode

namespace Expr

/-- How tightly the text of the expression holds together. A minus sign in
front of a number binds like the operator. -/
def level (d : Dialect) : Expr → Level
  | .literal v => if v.isNegative then .unary else .primary
  | .unary o _ => d.unaryLevel o
  | .binary o _ _ => d.binaryLevel o
  | .conditional _ _ _ => .conditional
  | .hoisted _ e => e.level d
  | .name _ | .call _ _ | .member _ _ | .index _ _ | .array _ | .object _ => .primary

def isNumber : Expr → Bool
  | .literal v => v.isNumber
  | .hoisted _ e => e.isNumber
  | _ => false

/-- `text`, in parentheses if `wrap` says so. -/
def enclose (wrap : Bool) (text : String) : String :=
  if wrap then "(" ++ text ++ ")" else text

/-- Whether an expression needs parentheses before a call, a field or an
index. A number does even though it is a leaf: `1.x` would be read
differently. -/
def needsParensAsTarget (d : Dialect) (e : Expr) : Bool :=
  e.isNumber || Level.primary.needsParensAlone (e.level d)

def needsParensInConditional (d : Dialect) (side : Side) (e : Expr) : Bool :=
  Level.conditional.needsParens .right (e.level d) side

/-- An operator in front of the text of its operand. Two minus signs are
kept apart, since `--` is a token of its own. -/
def unaryText (d : Dialect) (o : UnaryOperator) (wrap : Bool) (text : String) : String :=
  if !wrap && o = .negate && text.toList.head? = some '-' then d.unarySymbol o ++ " " ++ text
  else d.unarySymbol o ++ enclose wrap text

mutual

def render (d : Dialect) : Expr → String
  | .literal v => d.literal v
  | .name path => path
  | .unary o e =>
    unaryText d o ((d.unaryLevel o).needsParensAlone (e.level d)) (e.render d)
  | .binary o l r =>
    let wrap := fun side operand => (d.binaryLevel o).needsParens (d.associativity o) operand side
    enclose (wrap .left (l.level d)) (l.render d) ++ " " ++ d.binarySymbol o ++ " " ++
      enclose (wrap .right (r.level d)) (r.render d)
  | .conditional c t f =>
    let condition := enclose (needsParensInConditional d .left c) (c.render d)
    let whenFalse := enclose (needsParensInConditional d .right f) (f.render d)
    match d with
    | .javascript =>
      condition ++ " ? " ++ enclose (needsParensInConditional d .right t) (t.render d) ++ " : " ++
        whenFalse
    | .python =>
      enclose (needsParensInConditional d .left t) (t.render d) ++ " if " ++ condition ++
        " else " ++ whenFalse
  | .call f args =>
    enclose (f.needsParensAsTarget d) (f.render d) ++ "(" ++ ", ".intercalate (renderAll d args) ++
      ")"
  | .member e field => enclose (e.needsParensAsTarget d) (e.render d) ++ "." ++ field
  | .index e key =>
    enclose (e.needsParensAsTarget d) (e.render d) ++ "[" ++ key.render d ++ "]"
  | .array es => "[" ++ ", ".intercalate (renderAll d es) ++ "]"
  | .object entries => "\x7b" ++ ", ".intercalate (renderEntries d entries) ++ "\x7d"
  | .hoisted _ e => e.render d
termination_by structural e => e

def renderAll (d : Dialect) : List Expr → List String
  | [] => []
  | e :: es => e.render d :: renderAll d es
termination_by structural es => es

def renderEntries (d : Dialect) : List (String × Expr) → List String
  | [] => []
  | (key, e) :: es => (d.literal (.str key) ++ ": " ++ e.render d) :: renderEntries d es
termination_by structural es => es

end

theorem renderEntries_eq_map (d : Dialect) (es : List (String × Expr)) :
    renderEntries d es = es.map fun (key, e) => d.literal (.str key) ++ ": " ++ e.render d := by
  induction es with
  | nil => rfl
  | cons e es ih => simp [renderEntries, ih]

/-- Whether the expression is written as a single string literal. -/
def rendersQuoted (d : Dialect) (e : Expr) : Bool :=
  Text.isLiteral (e.render d)

/-- The text by which an argument is recognised in a call, whatever the
target: its JavaScript form. -/
def spelling (e : Expr) : String :=
  e.render .javascript

end Expr

end TargetCode
