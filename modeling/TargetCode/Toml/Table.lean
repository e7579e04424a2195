/-!
Tables and the rules by which the entries of a document fill them.

A table comes about in one of three ways, and what may still be added to it
depends on that. A header opens a table once; a table that was only named on
the way to another one may be opened later by its own header; a table made by
a dotted key grows by dotted keys alone.
-/

namespace TargetCode.Toml

inductive Origin where
  | header
  | implied
  | dotted
  deriving DecidableEq, Repr

/-- What a key can stand for. Numbers other than integers, dates and times are
told apart from the rest but their value is not kept. -/
inductive Item where
  | string (value : String)
  | integer (value : Int)
  | float
  | boolean (value : Bool)
  | datetime
  | array (elements : List Item)
  /-- A table written in braces, to which nothing can be added. -/
  | inline (entries : List (String × Item))
  | table (origin : Origin) (entries : List (String × Item))
  /-- An array of tables made by doubled headers. -/
  | tables (elements : List (List (String × Item)))

abbrev Entries := List (String × Item)

namespace Entries

def replace (entries : Entries) (key : String) (item : Item) : Entries :=
  entries.map fun (k, old) => if k = key then (k, item) else (k, old)

def add? (entries : Entries) (key : String) (item : Item) : Option Entries :=
  match entries.lookup key with
  | some _ => none
  | none => some (entries ++ [(key, item)])

end Entries

/-- The entries that a dotted key may go on to, and the item with other
entries in their place. `last` says that the pair itself goes there, which
only a table made by dotted keys allows. -/
def Item.openByKey? (last : Bool) : Item → Option (Entries × (Entries → Item))
  | .table .dotted entries => some (entries, .table .dotted)
  | .table .implied entries => if last then none else some (entries, .table .implied)
  | .tables elements =>
    if last then none
    else elements.getLast?.map fun entries =>
      (entries, fun new => .tables (elements.dropLast ++ [new]))
  | _ => none

def Item.openByHeader? : Item → Option (Entries × (Entries → Item))
  | .table origin entries => some (entries, .table origin)
  | .tables elements =>
    elements.getLast?.map fun entries =>
      (entries, fun new => .tables (elements.dropLast ++ [new]))
  | _ => none

/-- A pair as it is written: the keys before the last one, the last key, and
its value. -/
structure Pair where
  path : List String
  key : String
  value : Item

namespace Entries

/-- Adds `key = value` in the table that `path` leads to, making tables on
the way. -/
def insert? (entries : Entries) (key : String) (value : Item) : List String → Option Entries
  | [] => entries.add? key value
  | k :: path =>
    match entries.lookup k with
    | none => do
      let inner ← insert? [] key value path
      return entries ++ [(k, .table .dotted inner)]
    | some item => do
      let (inner, rebuild) ← item.openByKey? path.isEmpty
      let inner ← insert? inner key value path
      return entries.replace k (rebuild inner)

def insertAll? (entries : Entries) (pairs : List Pair) : Option Entries :=
  pairs.foldlM (fun entries p => entries.insert? p.key p.value p.path) entries

/-- Changes the entries of the table that a header's path leads to, making
tables on the way. -/
def update? (entries : Entries) (change : Entries → Option Entries) : List String → Option Entries
  | [] => change entries
  | k :: path =>
    match entries.lookup k with
    | none => do
      let inner ← update? [] change path
      return entries ++ [(k, .table .implied inner)]
    | some item => do
      let (inner, rebuild) ← item.openByHeader?
      let inner ← update? inner change path
      return entries.replace k (rebuild inner)

def openTable? (entries : Entries) (key : String) (pairs : List Pair) : Option Entries :=
  match entries.lookup key with
  | none => do
    let inner ← insertAll? [] pairs
    return entries ++ [(key, .table .header inner)]
  | some (.table .implied inner) => do
    let inner ← insertAll? inner pairs
    return entries.replace key (.table .header inner)
  | some _ => none

def pushTable? (entries : Entries) (key : String) (pairs : List Pair) : Option Entries :=
  match entries.lookup key with
  | none => do
    let inner ← insertAll? [] pairs
    return entries ++ [(key, .tables [inner])]
  | some (.tables elements) => do
    let inner ← insertAll? [] pairs
    return entries.replace key (.tables (elements ++ [inner]))
  | some _ => none

end Entries

/-- A part of a document: a header, if it has one, and the pairs below it. -/
structure Part where
  repeated : Bool
  path : List String
  key : String
  pairs : List Pair

def Entries.addPart? (entries : Entries) (part : Part) : Option Entries :=
  entries.update? (fun parent =>
    if part.repeated then parent.pushTable? part.key part.pairs
    else parent.openTable? part.key part.pairs) part.path

end TargetCode.Toml
