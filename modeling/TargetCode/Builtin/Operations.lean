import TargetCode.AllowList
import TargetCode.Registry

/-!
The operations that every program can call.
-/

namespace TargetCode.Builtin

/-- A list with its inner lists merged into it, as deep as a second argument
says. -/
def flatExpr : TextForm := fun args target =>
  match args with
  | [_] | [_, _] => .ok (target.helperCall "flat" args)
  | _ => .error (.arityNotRegistered "flat" args.length)

def flat : Operation :=
  (Operation.make "flat" [1, 2]).withEveryText flatExpr
    |>.withInvocation fun args table => table.callStatic "Lists" "flat" args

def lengthExpr : TextForm := fun args target =>
  match args with
  | [list] =>
    match target.dialect with
    | .javascript => .ok (.member list "length")
    | .python => .ok (list.passedTo "len")
  | _ => .error (.arityNotRegistered "length" args.length)

def lengthInvocation : InvocationForm := fun args table =>
  match args with
  | [list] => table.callBound list "List" "size" []
  | _ => .error (.arityNotRegistered "length" args.length)

def length : Operation :=
  (Operation.make "length" [1]).withEveryText lengthExpr |>.withInvocation lengthInvocation

def extremeExpr (name : String) : TextForm := fun args target =>
  match args with
  | [a, b] =>
    match target.dialect with
    | .javascript => .ok (target.globalCall ("Math." ++ name) [a, b])
    | .python => .ok (target.globalCall name [a, b])
  | _ => .error (.arityNotRegistered name args.length)

def extreme (name : String) : Operation :=
  (Operation.make name [2]).withEveryText (extremeExpr name)
    |>.withInvocation fun args table => table.callStatic "Math" name args

def max : Operation := extreme "max"

def min : Operation := extreme "min"

/-- Rounding to a whole number is the language's own; rounding to a number of
digits is a helper's. -/
def roundExpr : TextForm := fun args target =>
  match args, target.dialect with
  | [x], .javascript => .ok (target.globalCall "Math.round" [x])
  | [x], .python => .ok (target.globalCall "round" [x])
  | [_, _], _ => .ok (target.helperCall "round" args)
  | _, _ => .error (.arityNotRegistered "round" args.length)

def round : Operation :=
  (Operation.make "round" [1, 2]).withEveryText roundExpr
    |>.withInvocation fun args table => table.callStatic "Math" "round" args

/-- Whether a text occurs in another. Only the text that is searched is made
a string first. -/
def strContainsExpr : TextForm := fun args target =>
  match args with
  | [searched, sought] =>
    let searched := target.asString searched
    match target.dialect with
    | .javascript =>
      .ok (.binary .notEqual (searched.callMember "indexOf" [sought]) (.int (-1)))
    | .python => .ok (.binary .elementOf sought searched)
  | _ => .error (.arityNotRegistered "strContains" args.length)

def strContains : Operation :=
  (Operation.make "strContains" [2]).withEveryText strContainsExpr
    |>.withInvocation fun args table => table.callStatic "Strings" "contains" args

def escapeHtmlExpr : TextForm := fun args target =>
  match args with
  | [value] => .ok (target.helperCall "escapeHtml" [value])
  | _ => .error (.arityNotRegistered "escapeHtml" args.length)

/-- The value is escaped piece by piece on its way into the sink. -/
def escapeHtmlLayers : StreamingForm := fun _ sink =>
  ⟨sink, [], .ok ([.escapeHtml], {})⟩

/-- Text made safe for HTML. There is no form for Python. -/
def escapeHtml : Operation :=
  (Operation.make "escapeHtml" [1]).withText .javascript escapeHtmlExpr
    |>.withInvocation (fun args table => table.callStatic "Sanitizers" "escapeHtml" args)
    |>.withStreaming escapeHtmlLayers

/-- The elements that may be kept when HTML is cleaned, beside the ones that
always are. -/
def safeTags : AllowList :=
  ⟨["hr", "li", "ol", "span", "ul"]⟩

/-- The elements named by the arguments after the value, given the source
texts of all arguments. -/
def requestedTags (sources : List String) : Except Error (List String) :=
  safeTags.pickAll (sources.drop 1)

def checkTags (texts : List String) : Except Error Unit := do
  discard (safeTags.pickAll texts)

def cleanHtmlHelper : Dialect → String
  | .javascript => "cleanHtml"
  | .python => "clean_html"

def cleanHtmlExpr : TextForm := fun args target =>
  match args with
  | [] => .error (.arityNotRegistered "cleanHtml" args.length)
  | value :: _ => do
    let helper := cleanHtmlHelper target.dialect
    match ← requestedTags (args.map Expr.spelling) with
    | [] => return value.passedTo (target.helperPath helper)
    | tags => return target.helperCall helper [value, .array (tags.map Expr.string)]

def cleanHtmlInvocation : InvocationForm := fun args table =>
  match args with
  | [] => .error (.arityNotRegistered "cleanHtml" args.length)
  | value :: _ => do
    match ← requestedTags (args.map Operand.spelling) with
    | [] => table.callStatic "Sanitizers" "cleanHtml" [value]
    | tags => table.callStatic "Sanitizers" "cleanHtml" [value, .constant (.strings tags)]

def cleanHtml : Operation :=
  (Operation.make "cleanHtml" [1, 2, 3, 4, 5, 6]).withEveryText cleanHtmlExpr
    |>.withInvocation cleanHtmlInvocation
    |>.withLiterals 1 checkTags

/-- All built-in operations in the order in which they are registered. -/
def operations : List Operation :=
  [flat, length, max, min, round, strContains, escapeHtml, cleanHtml]

end TargetCode.Builtin

/-- The registry of the built-in operations. -/
def TargetCode.Registry.builtin : TargetCode.Registry :=
  (TargetCode.Registry.empty.registerAll TargetCode.Builtin.operations).registry
