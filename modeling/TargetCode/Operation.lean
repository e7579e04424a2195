import TargetCode.MethodTable
import TargetCode.Sink.Basic
import TargetCode.TextTarget

/-!
Operations: named calls with a form for each back end.
-/

namespace TargetCode

abbrev TextForm := List Expr → TextTarget → Except Error Expr

abbrev InvocationForm := List Operand → MethodTable → Except Error Invocation

/-- What a streaming form does with a sink: the sink after anything it wrote,
what was reported meanwhile, and either the layers that transform a value
on its way into the sink, the innermost first, or why there are none. -/
structure Opening where
  sink : Sink
  events : List Event
  result : Except Error (List Layer × Disposal)

/-- Prepares a sink for a value, given the source texts of the arguments
after the value. -/
abbrev StreamingForm := List String → Sink → Opening

/-- A check of the source texts of literal arguments, from the argument
number `first` on. -/
structure LiteralCheck where
  first : Nat
  check : List String → Except Error Unit

inductive Delivery where
  | buffered
  | streaming
  deriving DecidableEq, Repr

structure Operation where
  name : String
  arities : List Nat
  text : Dialect → Option TextForm
  invocation : Option InvocationForm
  literals : Option LiteralCheck
  streaming : Option StreamingForm

namespace Operation

/-- Adds a number to an ascending list, unless it is there already. -/
def insertArity (n : Nat) : List Nat → List Nat
  | [] => [n]
  | m :: rest =>
    if n < m then n :: m :: rest
    else if n = m then m :: rest
    else m :: insertArity n rest

def make (name : String) (arities : List Nat) : Operation where
  name := name
  arities := arities.foldr insertArity []
  text := fun _ => none
  invocation := none
  literals := none
  streaming := none

/-- Sets the form for one dialect in place of any earlier one. -/
def withText (op : Operation) (d : Dialect) (form : TextForm) : Operation :=
  { op with text := fun d' => if d' = d then some form else op.text d' }

def withEveryText (op : Operation) (form : TextForm) : Operation :=
  { op with text := fun _ => some form }

def withInvocation (op : Operation) (form : InvocationForm) : Operation :=
  { op with invocation := some form }

def withStreaming (op : Operation) (form : StreamingForm) : Operation :=
  { op with streaming := some form }

def withLiterals (op : Operation) (first : Nat) (check : List String → Except Error Unit) :
    Operation :=
  { op with literals := some ⟨first, check⟩ }

def accepts (op : Operation) (arity : Nat) : Bool :=
  op.arities.contains arity

def hasForm (op : Operation) : Backend → Bool
  | .javascript => (op.text .javascript).isSome
  | .python => (op.text .python).isSome
  | .bytecode => op.invocation.isSome

/-- The back ends that the operation has a form for, in order. -/
def backends (op : Operation) : List Backend :=
  Backend.all.filter op.hasForm

/-- A call streams if its caller holds a sink and the operation can. -/
def delivery (op : Operation) (holdsSink : Bool) : Delivery :=
  if holdsSink && op.streaming.isSome then .streaming else .buffered

def listing (op : Operation) : String :=
  "OperationDescriptor \x7b name: " ++ Text.shown op.name ++ ", arities: " ++
    arityListing op.arities ++ ", backends: " ++ backendListing op.backends ++
    ", validates_literals: " ++ truth op.literals.isSome ++ ", streaming: " ++
    truth op.streaming.isSome ++ " \x7d"

def requireArity (op : Operation) (arity : Nat) : Except Error Unit :=
  if op.accepts arity then .ok () else .error (.arityNotRegistered op.name arity)

def requireLiterals (op : Operation) (sources : List String) : Except Error Unit :=
  match op.literals with
  | none => .ok ()
  | some literals => literals.check (sources.drop literals.first)

end Operation

end TargetCode
