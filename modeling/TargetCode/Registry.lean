import TargetCode.Builtin.Methods
import TargetCode.Operation

/-!
The table of operations, and how a call is dispatched.

A call is checked for its operation, the number of its arguments, the back
end and its literal arguments, in this order, and only then is the
operation's form run.
-/

namespace TargetCode

structure Registry where
  operations : List Operation

structure Registration where
  registry : Registry
  result : Except Error Unit
  events : List Event

namespace Registry

def empty : Registry where
  operations := []

def find? (r : Registry) (name : String) : Option Operation :=
  r.operations.find? fun op => op.name = name

def size (r : Registry) : Nat :=
  r.operations.length

/-- The names of all operations, in the order of their characters. -/
def names (r : Registry) : List String :=
  (r.operations.map Operation.name).mergeSort fun a b => decide (a ≤ b)

def fault? (r : Registry) (op : Operation) : Option Error :=
  if op.arities.isEmpty then some (.noArities op.name)
  else if op.backends.isEmpty then some (.noForms op.name)
  else if (r.find? op.name).isSome then some (.duplicateOperation op.name)
  else none

/-- Adds an operation. It needs an arity, a form and a name of its own. -/
def register (r : Registry) (op : Operation) : Registration :=
  match r.fault? op with
  | some e => ⟨r, .error e, []⟩
  | none =>
    ⟨⟨r.operations ++ [op]⟩, .ok (), [.registered op.name op.arities op.backends]⟩

/-- Adds operations up to the first one that is refused. -/
def registerAll (r : Registry) : List Operation → Registration
  | [] => ⟨r, .ok (), []⟩
  | op :: ops =>
    let first := r.register op
    match first.result with
    | .error _ => first
    | .ok () =>
      let rest := first.registry.registerAll ops
      { rest with events := first.events ++ rest.events }

def get (r : Registry) (name : String) : Except Error Operation :=
  match r.find? name with
  | some op => .ok op
  | none => .error (.unknownOperation name)

/-- The form that a call runs, if the call passes all checks. The call has
as many arguments as it has source texts. -/
def formOf {α : Type} (r : Registry) (backend : Backend) (form : Operation → Option α)
    (name : String) (sources : List String) : Except Error α := do
  let op ← r.get name
  op.requireArity sources.length
  match form op with
  | none => .error (.unknownBackend name backend)
  | some f =>
    op.requireLiterals sources
    return f

def expression (r : Registry) (name : String) (args : List Expr) (target : TextTarget) :
    Logged (Except Error Expr) :=
  match r.formOf target.backend (fun op => op.text target.dialect) name
      (args.map Expr.spelling) with
  | .error e => ⟨.error e, [.rejected name e]⟩
  | .ok form => ⟨form args target, [.realizing name target.backend args.length]⟩

def invocation (r : Registry) (name : String) (args : List Operand)
    (table : MethodTable) : Logged (Except Error Invocation) :=
  match r.formOf .bytecode Operation.invocation name (args.map Operand.spelling) with
  | .error e => ⟨.error e, [.rejected name e]⟩
  | .ok form =>
    match form args table with
    | .error e => ⟨.error e, []⟩
    | .ok i => ⟨.ok i, [.realized name (methodName i.method.id) args.length]⟩

/-- Opens the streaming form of an operation over a sink. The value that will
be streamed counts as an argument; `args` are the source texts of the others,
and they alone are looked at by the check of literals. -/
def stream (r : Registry) (name : String) (args : List String) (sink : Sink) : Opening :=
  let reject (e : Error) : Opening := ⟨sink, [.rejected name e], .error e⟩
  match r.get name with
  | .error e => reject e
  | .ok op =>
    match op.requireArity (args.length + 1) with
    | .error e => reject e
    | .ok () =>
      match op.streaming with
      | none => ⟨sink, [], .error (.noStreamingForm name)⟩
      | some form =>
        match op.requireLiterals args with
        | .error e => reject e
        | .ok () =>
          let opening := form args sink
          { opening with events := .openingStream name :: opening.events }

/-- The form in which a call is written; an unknown operation is buffered. -/
def delivery (r : Registry) (name : String) (holdsSink : Bool) : Delivery :=
  match r.find? name with
  | some op => op.delivery holdsSink
  | none => .buffered

end Registry

end TargetCode
