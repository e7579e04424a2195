import TargetCode.Page

/-!
A page together with statements that wait to be written.

Waiting statements are written before the next expression that reaches the
page, or when they are asked for, and only if the page does not hold them
yet. A declaration without a value evaluates nothing, so it does not bring
them out.
-/

namespace TargetCode

structure Draft where
  page : Page
  pending : List Statement

namespace Draft

def blank (d : Dialect) : Draft where
  page := .blank d
  pending := []

/-- The draft with another indent for each level. -/
def indentedBy (d : Draft) (unit : String) : Draft :=
  { d with page := { d.page with indentUnit := unit } }

def indentMore (d : Draft) : Draft :=
  { d with page := { d.page with depth := d.page.depth + 1 } }

/-- One level less, but never less than none. -/
def indentLess (d : Draft) : Draft :=
  { d with page := { d.page with depth := d.page.depth - 1 } }

def enqueue (d : Draft) (statements : List Statement) : Draft :=
  { d with pending := d.pending ++ statements }

def flush (d : Draft) : Draft where
  page := d.page.writeMissing d.pending
  pending := []

/-- Writes what an expression depends on and hands its text to the caller,
who puts it on a line of its own. -/
def fragment (d : Draft) (e : Expr) : Draft × String :=
  ((d.enqueue e.initial).flush, e.render d.page.dialect)

mutual

def append (d : Draft) : Statement → Draft
  | .sequence parts => d.appendAll parts
  | .expression e doc =>
    let d := d.flush
    { d with page := d.page.write (.expression e doc) }
  | .declaration name binding (some e) doc =>
    let d := d.flush
    { d with page := d.page.write (.declaration name binding (some e) doc) }
  | .declaration name binding none doc =>
    { d with page := d.page.write (.declaration name binding none doc) }
termination_by structural s => s

def appendAll (d : Draft) : List Statement → Draft
  | [] => d
  | s :: statements => (d.append s).appendAll statements
termination_by structural statements => statements

end

def finish (d : Draft) : String :=
  d.flush.page.text

end Draft

end TargetCode
