import TargetCode.Error

/-!
Arguments that have to be quoted literals, and lists of the names that such
literals may hold.
-/

namespace TargetCode

/-- The text between the quotes of a literal argument. An empty literal
names nothing and is refused. -/
def unquote (text : String) : Except Error String :=
  match Text.body? text with
  | some body => .ok body
  | none => .error (.malformedLiteral text)

structure AllowList where
  entries : List String

namespace AllowList

def contains (allowed : AllowList) (name : String) : Bool :=
  allowed.entries.contains name

def pick (allowed : AllowList) (text : String) : Except Error String :=
  match unquote text with
  | .error e => .error e
  | .ok name => if allowed.contains name then .ok name else .error (.notAllowed name)

/-- The entries that several literals name, unless one of them is at fault;
the first such one is reported. -/
def pickAll (allowed : AllowList) (texts : List String) : Except Error (List String) :=
  texts.mapM allowed.pick

end AllowList

end TargetCode
