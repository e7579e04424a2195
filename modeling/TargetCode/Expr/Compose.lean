import TargetCode.Expr.Initial
import TargetCode.Expr.Render

/-!
Expressions built from smaller ones.
-/

namespace TargetCode

namespace Expr

def string (s : String) : Expr :=
  .literal (.str s)

def int (i : Int) : Expr :=
  .literal (.int i)

/-- The call `object.method(args)`. -/
def callMember (object : Expr) (method : String) (args : List Expr) : Expr :=
  .call (.member object method) args

/-- The call `callee(e)`, where `callee` is a name or a dotted path. -/
def passedTo (callee : String) (e : Expr) : Expr :=
  .call (.name callee) [e]

/-- A name whose declaration, as a constant with the given value, runs
before whatever uses the name. -/
def ofConstant (name : String) (value : Expr) : Expr :=
  (Expr.name name).withInitial [.declaration name .constant (some value) none]

/-- The operands joined by `+` from left to right. No operands give the
empty string, and a single one is left as it is. -/
def concat : List Expr → Expr
  | [] => string ""
  | e :: es => es.foldl (.binary .add) e

/-- What has to be built around an expression to make it a string; there is
nothing to build for a string literal. JavaScript turns any operand of `+` into
a string when the other one is a string; Python does not, so it calls `str`. -/
def coercion? (d : Dialect) (e : Expr) : Option Expr :=
  if e.rendersQuoted d then none
  else
    match d with
    | .javascript => some (concat [string "", e])
    | .python => some (passedTo "str" e)

def asString (d : Dialect) (e : Expr) : Expr :=
  (e.coercion? d).getD e

end Expr

end TargetCode
