import TargetCode.Dialect

namespace TargetCode

/-- What a call can be turned into: source text in one of the dialects, or
an invocation of a method known to the running program. -/
inductive Backend where
  | javascript
  | python
  | bytecode
  deriving DecidableEq, Repr

namespace Backend

def all : List Backend :=
  [.javascript, .python, .bytecode]

def ofDialect : Dialect → Backend
  | .javascript => .javascript
  | .python => .python

def dialect? : Backend → Option Dialect
  | .javascript => some .javascript
  | .python => some .python
  | .bytecode => none

/-- The name used in messages. -/
def name : Backend → String
  | .javascript => "javascript"
  | .python => "python"
  | .bytecode => "bytecode"

/-- The name used in listings. -/
def title : Backend → String
  | .javascript => "JavaScript"
  | .python => "Python"
  | .bytecode => "Bytecode"

def rank : Backend → Nat
  | .javascript => 0
  | .python => 1
  | .bytecode => 2

instance : Ord Backend where
  compare a b := compare a.rank b.rank

end Backend

end TargetCode
