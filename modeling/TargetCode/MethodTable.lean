import TargetCode.Error
import TargetCode.Invocation

/-!
The methods and globals that invocations can refer to.

A method has a place for its overloads under its owner and name, and in there
one overload for each number of arguments, of which the first one is kept. A
global may be set again. Both tables are lists of pairs in which the latest
pair counts.
-/

namespace TargetCode

structure MethodTable where
  overloads : List ((String × String) × List (Nat × Method))
  globals : List (String × Nat)

structure MethodRegistration where
  table : MethodTable
  result : Except Error Unit

namespace MethodTable

def empty : MethodTable where
  overloads := []
  globals := []

/-- The overloads of a method by their number of arguments, if it has a place. -/
def place? (table : MethodTable) (owner name : String) : Option (List (Nat × Method)) :=
  table.overloads.lookup (owner, name)

def setPlace (table : MethodTable) (owner name : String) (place : List (Nat × Method)) :
    MethodTable :=
  { table with overloads := ((owner, name), place) :: table.overloads }

/-- The table with a place for a method, and what is in there. If there is none, an
empty one is made. -/
def openPlace (table : MethodTable) (owner name : String) :
    MethodTable × List (Nat × Method) :=
  match table.place? owner name with
  | some place => (table, place)
  | none => (table.setPlace owner name [], [])

def find? (table : MethodTable) (owner name : String) (arity : Nat) : Option Method :=
  (table.place? owner name).bind fun place => place.lookup arity

/-- Adds an overload. The place of its method is opened before it is known
whether the overload can be taken. -/
def register (table : MethodTable) (m : Method) : MethodRegistration :=
  let (opened, place) := table.openPlace m.owner m.name
  match place.lookup m.arity with
  | some _ => ⟨opened, .error (.duplicateMethod m.owner m.name m.arity)⟩
  | none => ⟨opened.setPlace m.owner m.name ((m.arity, m) :: place), .ok ()⟩

/-- Adds methods up to the first one that is refused. -/
def registerAll (table : MethodTable) : List Method → MethodRegistration
  | [] => ⟨table, .ok ()⟩
  | m :: methods =>
    let first := table.register m
    match first.result with
    | .error _ => first
    | .ok () => first.table.registerAll methods

def setGlobal (table : MethodTable) (name : String) (slot : Nat) : MethodTable :=
  { table with globals := (name, slot) :: table.globals }

def slot? (table : MethodTable) (name : String) : Option Nat :=
  table.globals.lookup name

/-- The method of this name with exactly `arity` arguments. -/
def get (table : MethodTable) (owner name : String) (arity : Nat) : Except Error Method :=
  match table.find? owner name arity with
  | some m => .ok m
  | none => .error (.noOverload owner name arity)

/-- The argument counts with which a method can be called, ascending. -/
def arities (table : MethodTable) (owner name : String) : List Nat :=
  (((table.place? owner name).getD []).map Prod.fst).mergeSort

def select (table : MethodTable) (owner name : String) (arity : Nat) (kind : MethodKind) :
    Except Error Method :=
  match table.get owner name arity with
  | .error e => .error e
  | .ok m => if m.kind = kind then .ok m else .error (.noOverload owner name arity)

def callStatic (table : MethodTable) (owner name : String) (args : List Operand) :
    Except Error Invocation :=
  match table.select owner name args.length .static with
  | .error e => .error e
  | .ok m => .ok ⟨m, none, args⟩

def callBound (table : MethodTable) (receiver : Operand) (owner name : String)
    (args : List Operand) : Except Error Invocation :=
  match table.select owner name args.length .bound with
  | .error e => .error e
  | .ok m => .ok ⟨m, some receiver, args⟩

def global (table : MethodTable) (name : String) : Except Error Operand :=
  match table.slot? name with
  | some slot => .ok (.global name slot)
  | none => .error (.unknownGlobal name)

end MethodTable

end TargetCode
