import TargetCode.Expr.Initial
import TargetCode.Expr.Render

/-!
Statements written line by line.

A statement is preceded by the statements that its expression depends on.
The page remembers what it has written, and a statement that another one
depends on is left out if it is on the page already. A sequence is written
part by part and is not itself remembered.
-/

namespace TargetCode

namespace Statement

def initial : Statement → List Statement
  | .sequence _ => []
  | .expression e _ => e.initial
  | .declaration _ _ none _ => []
  | .declaration _ _ (some e) _ => e.initial

def doc? : Statement → Option String
  | .sequence _ => none
  | .expression _ doc => doc
  | .declaration _ _ _ doc => doc

/-- The line of a statement, without its indent. A sequence has none. -/
def line (d : Dialect) : Statement → String
  | .sequence _ => ""
  | .expression e _ => e.render d ++ d.statementEnd
  | .declaration name binding e _ => d.declarationLine name binding (e.map (Expr.render d))

theorem sizeOf_lt_of_mem_initial {s t : Statement} (h : t ∈ s.initial) : sizeOf t < sizeOf s := by
  match s, h with
  | .sequence _, h => simp [initial] at h
  | .expression e _, h =>
    have := Expr.sizeOf_lt_of_mem_initial h
    simp; omega
  | .declaration _ _ none _, h => simp [initial] at h
  | .declaration _ _ (some e) _, h =>
    have := Expr.sizeOf_lt_of_mem_initial h
    simp; omega

end Statement

structure Page where
  dialect : Dialect
  indentUnit : String
  depth : Nat
  text : String
  /-- Every expression statement and declaration that is on the page. -/
  written : List Statement

namespace Page

def blank (d : Dialect) : Page where
  dialect := d
  indentUnit := d.defaultIndent
  depth := 0
  text := ""
  written := []

/-- The blanks that start a line at the current depth. -/
def indent (p : Page) : String :=
  String.join (List.replicate p.depth p.indentUnit)

def addDoc (p : Page) : Option String → Page
  | none => p
  | some doc => { p with text := p.text ++ p.dialect.docHeader p.indent doc }

def addLine (p : Page) (line : String) : Page :=
  { p with text := p.text ++ p.indent ++ line ++ "\n" }

/-- Adds the documentation and the line of a statement, and remembers it. -/
def put (p : Page) (s : Statement) : Page :=
  let p := (p.addDoc s.doc?).addLine (s.line p.dialect)
  { p with written := s :: p.written }

/-- Writes a statement after the statements that it depends on. -/
def write (p : Page) : Statement → Page
  | .sequence parts => parts.attach.foldl (fun p s => p.write s.1) p
  | s =>
    (s.initial.attach.foldl (fun p t => if t.1 ∈ p.written then p else p.write t.1) p).put s
termination_by s => sizeOf s
decreasing_by
  · have := List.sizeOf_lt_of_mem s.2
    simp; omega
  · exact Statement.sizeOf_lt_of_mem_initial t.2

/-- Writes the statements that are not on the page yet. -/
def writeMissing (p : Page) (statements : List Statement) : Page :=
  statements.foldl (fun p s => if s ∈ p.written then p else p.write s) p

theorem foldl_attach_eq_writeMissing (p : Page) (statements : List Statement) :
    statements.attach.foldl (fun p t => if t.1 ∈ p.written then p else p.write t.1) p =
      p.writeMissing statements :=
  List.foldl_attach (f := fun (p : Page) t => if t ∈ p.written then p else p.write t)

theorem write_sequence (p : Page) (parts : List Statement) :
    p.write (.sequence parts) = parts.foldl write p := by
  rw [write]
  exact List.foldl_attach

theorem write_expression (p : Page) (e : Expr) (doc : Option String) :
    p.write (.expression e doc) = (p.writeMissing e.initial).put (.expression e doc) := by
  rw [write, foldl_attach_eq_writeMissing, Statement.initial]
  simp

theorem write_declaration (p : Page) (name : String) (binding : Binding) (e : Option Expr)
    (doc : Option String) :
    p.write (.declaration name binding e doc) =
      (p.writeMissing (Statement.declaration name binding e doc).initial).put
        (.declaration name binding e doc) := by
  rw [write, foldl_attach_eq_writeMissing]
  simp

end Page

def Statement.code (d : Dialect) (s : Statement) : String :=
  ((Page.blank d).write s).text

/-- An expression as a text of its own, with what has to run before it. -/
def Expr.code (d : Dialect) (e : Expr) : String :=
  (Statement.expression e none).code d

end TargetCode
