import TargetCode.Draft
import TargetCode.Error
import TargetCode.Expr.Compose
import TargetCode.Settings

/-!
A dialect together with its settings: what is needed to turn a call into
source text.
-/

namespace TargetCode

structure TextTarget where
  dialect : Dialect
  helpers : String
  indent : String

namespace TextTarget

def ofDialect (d : Dialect) (settings : Settings) : TextTarget where
  dialect := d
  helpers := (settings.sectionFor d).helpers
  indent := (settings.sectionFor d).indent

/-- The target for a back end, which has to be one that writes text. -/
def ofBackend (backend : Backend) (settings : Settings) : Except Error TextTarget :=
  match backend.dialect? with
  | some d => .ok (ofDialect d settings)
  | none => .error (.notTextual backend)

def backend (target : TextTarget) : Backend :=
  .ofDialect target.dialect

/-- The dotted path of a helper function. -/
def helperPath (target : TextTarget) (name : String) : String :=
  target.helpers ++ "." ++ name

def helper (target : TextTarget) (name : String) : Expr :=
  .name (target.helperPath name)

def helperCall (target : TextTarget) (name : String) (args : List Expr) : Expr :=
  .call (target.helper name) args

/-- A call of a global function, which may be a dotted path. -/
def globalCall (_ : TextTarget) (name : String) (args : List Expr) : Expr :=
  .call (.name name) args

def asString (target : TextTarget) (e : Expr) : Expr :=
  e.asString target.dialect

def draft (target : TextTarget) : Draft :=
  (Draft.blank target.dialect).indentedBy target.indent

end TextTarget

end TargetCode
