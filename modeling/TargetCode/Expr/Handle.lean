import TargetCode.Expr.Compose

/-!
Nodes with an identity.

Two expressions can be equal without being one node. A handle is an
expression with a mark, and every construction makes a node with a new mark;
only the operations that hand back one of their operands keep its mark. Two
handles are the same node exactly when their marks agree.
-/

namespace TargetCode

structure Handle where
  mark : Nat
  expr : Expr

/-- Computations that draw new marks from a counter. -/
abbrev Marking := StateM Nat

namespace Handle

def make (e : Expr) : Marking Handle := do
  let mark ← get
  set (mark + 1)
  return ⟨mark, e⟩

def identical (a b : Handle) : Bool :=
  a.mark = b.mark

/-- Joins operands by `+`. A single operand is handed back. -/
def concat : List Handle → Marking Handle
  | [h] => return h
  | hs => make (Expr.concat (hs.map Handle.expr))

/-- Turns a node into a string. If nothing is built, the node is handed back. -/
def asString (d : Dialect) (h : Handle) : Marking Handle :=
  match h.expr.coercion? d with
  | none => return h
  | some e => make e

end Handle

end TargetCode
