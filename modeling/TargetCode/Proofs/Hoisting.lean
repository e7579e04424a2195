import TargetCode.Draft

/-!
What a statement depends on stands on the page before it.

The lines on a page are those of expression statements and declarations.
However the operations on a draft are mixed, a line is written only after the
lines of everything that its expression needs, directly or through other
statements, and whatever was handed to the draft is on the finished page.

All of this follows from one invariant of the list of written statements: it
is `Ordered`, newest first, so that a statement that is left out because it is
on the page already has brought its own dependencies with it.
-/

namespace TargetCode

namespace Statement

def isSequence : Statement → Bool
  | .sequence _ => true
  | .expression _ _ => false
  | .declaration _ _ _ _ => false

mutual

/-- The statements that have lines of their own within a statement. -/
def leaves : Statement → List Statement
  | .sequence parts => leavesAll parts
  | .expression e doc => [.expression e doc]
  | .declaration name binding e doc => [.declaration name binding e doc]
termination_by structural s => s

def leavesAll : List Statement → List Statement
  | [] => []
  | s :: statements => s.leaves ++ leavesAll statements
termination_by structural statements => statements

end

theorem leaves_eq_self {s : Statement} (h : s.isSequence = false) : s.leaves = [s] := by
  cases s with
  | sequence parts => simp [isSequence] at h
  | expression e doc => rfl
  | declaration name binding e doc => rfl

theorem mem_leavesAll {t : Statement} {statements : List Statement} :
    t ∈ leavesAll statements ↔ ∃ s ∈ statements, t ∈ s.leaves := by
  induction statements with
  | nil => simp [leavesAll]
  | cons s statements ih => simp [leavesAll, ih]

theorem sizeOf_lt_of_mem_parts {s : Statement} {parts : List Statement} (h : s ∈ parts) :
    sizeOf s < sizeOf (Statement.sequence parts) := by
  have := List.sizeOf_lt_of_mem h
  simp only [Statement.sequence.sizeOf_spec]
  omega

/-- To prove something of every statement, prove it of a sequence from its
parts, and of any other statement from the ones that it depends on. -/
@[elab_as_elim]
theorem dependencyInduction {motive : Statement → Prop}
    (sequence : ∀ parts, (∀ s ∈ parts, motive s) → motive (.sequence parts))
    (line : ∀ s, s.isSequence = false → (∀ t ∈ s.initial, motive t) → motive s)
    (s : Statement) : motive s := by
  induction hsize : sizeOf s using Nat.strongRecOn generalizing s with
  | ind n ih =>
      subst hsize
      cases hs : s.isSequence with
      | true =>
          match s, ih with
          | .sequence parts, ih =>
            exact sequence parts fun t ht => ih (sizeOf t) (sizeOf_lt_of_mem_parts ht) t rfl
      | false =>
          exact line s hs fun t ht => ih (sizeOf t) (sizeOf_lt_of_mem_initial ht) t rfl

/-- How the line of a statement is spelled in a dialect, without its indent. There is
no line for a sequence. -/
inductive IsLine : Dialect → Statement → String → Prop
  | javascriptExpression (e : Expr) (doc : Option String) :
      IsLine .javascript (.expression e doc) (e.render .javascript ++ ";")
  | javascriptConst (name : String) (e : Expr) (doc : Option String) :
      IsLine .javascript (.declaration name .constant (some e) doc)
        ("const " ++ name ++ " = " ++ e.render .javascript ++ ";")
  | javascriptLet (name : String) (e : Expr) (doc : Option String) :
      IsLine .javascript (.declaration name .variable (some e) doc)
        ("let " ++ name ++ " = " ++ e.render .javascript ++ ";")
  | javascriptConstEmpty (name : String) (doc : Option String) :
      IsLine .javascript (.declaration name .constant none doc) ("const " ++ name ++ ";")
  | javascriptLetEmpty (name : String) (doc : Option String) :
      IsLine .javascript (.declaration name .variable none doc) ("let " ++ name ++ ";")
  | pythonExpression (e : Expr) (doc : Option String) :
      IsLine .python (.expression e doc) (e.render .python)
  | pythonAssignment (name : String) (binding : Binding) (e : Expr) (doc : Option String) :
      IsLine .python (.declaration name binding (some e) doc) (name ++ " = " ++ e.render .python)
  | pythonEmpty (name : String) (binding : Binding) (doc : Option String) :
      IsLine .python (.declaration name binding none doc) (name ++ " = None")

theorem IsLine.line_eq {d : Dialect} {s : Statement} {text : String} (h : IsLine d s text) :
    s.line d = text := by
  cases h <;>
    simp [line, Dialect.declarationLine, Dialect.keyword?, Dialect.statementEnd,
      String.append_assoc]

theorem isLine_line (d : Dialect) {s : Statement} (h : s.isSequence = false) :
    IsLine d s (s.line d) := by
  have hspelled : ∃ text, IsLine d s text :=
    match d, s, h with
    | .javascript, .expression e doc, _ => ⟨_, .javascriptExpression e doc⟩
    | .javascript, .declaration name .constant (some e) doc, _ => ⟨_, .javascriptConst name e doc⟩
    | .javascript, .declaration name .variable (some e) doc, _ => ⟨_, .javascriptLet name e doc⟩
    | .javascript, .declaration name .constant none doc, _ => ⟨_, .javascriptConstEmpty name doc⟩
    | .javascript, .declaration name .variable none doc, _ => ⟨_, .javascriptLetEmpty name doc⟩
    | .python, .expression e doc, _ => ⟨_, .pythonExpression e doc⟩
    | .python, .declaration name binding (some e) doc, _ =>
      ⟨_, .pythonAssignment name binding e doc⟩
    | .python, .declaration name binding none doc, _ => ⟨_, .pythonEmpty name binding doc⟩
  obtain ⟨text, htext⟩ := hspelled
  rwa [htext.line_eq]

end Statement

/-- `Needs first t` says that `t` has a line among the statements `first`, or
is needed in turn by one that has. -/
inductive Needs : List Statement → Statement → Prop
  | leaf {first : List Statement} {s t : Statement} (hs : s ∈ first) (ht : t ∈ s.leaves) :
      Needs first t
  | deeper {first : List Statement} {s t : Statement} (hs : Needs first s)
      (ht : Needs s.initial t) : Needs first t

namespace Needs

theorem mono {first more : List Statement} {t : Statement} (h : Needs first t)
    (hsubset : first ⊆ more) : Needs more t := by
  induction h with
  | leaf hs ht => exact .leaf (hsubset hs) ht
  | deeper _ ht ih => exact .deeper (ih hsubset) ht

theorem of_mem {first : List Statement} {s t : Statement} (h : Needs [s] t) (hs : s ∈ first) :
    Needs first t :=
  h.mono (List.cons_subset.2 ⟨hs, List.nil_subset _⟩)

/-- Every need is that of one statement. -/
theorem exists_mem {first : List Statement} {t : Statement} (h : Needs first t) :
    ∃ s ∈ first, Needs [s] t := by
  induction h with
  | leaf hs ht => exact ⟨_, hs, .leaf (List.mem_singleton_self _) ht⟩
  | deeper _ ht ih =>
      obtain ⟨s, hs, hneeds⟩ := ih
      exact ⟨s, hs, .deeper hneeds ht⟩

theorem sequence {parts : List Statement} {t : Statement} (h : Needs parts t) :
    Needs [.sequence parts] t := by
  induction h with
  | leaf hs ht =>
      refine .leaf (List.mem_singleton_self _) ?_
      rw [Statement.leaves, Statement.mem_leavesAll]
      exact ⟨_, hs, ht⟩
  | deeper _ ht ih => exact .deeper ih ht

end Needs

/-- A list of lines, the newest first, in which everything comes after what it
needs. -/
def Ordered : List Statement → Prop
  | [] => True
  | s :: older => s.isSequence = false ∧ (∀ t, Needs s.initial t → t ∈ older) ∧ Ordered older

namespace Ordered

variable {written : List Statement}

theorem isSequence_eq_false (h : Ordered written) {s : Statement} (hs : s ∈ written) :
    s.isSequence = false := by
  induction written with
  | nil => simp at hs
  | cons t written ih =>
      rcases List.mem_cons.1 hs with rfl | hs
      · exact h.1
      · exact ih h.2.2 hs

theorem mem_of_needs (h : Ordered written) {s t : Statement} (hs : s ∈ written)
    (ht : Needs s.initial t) : t ∈ written := by
  induction written with
  | nil => simp at hs
  | cons u written ih =>
      rcases List.mem_cons.1 hs with rfl | hs
      · exact List.mem_cons_of_mem _ (h.2.1 t ht)
      · exact List.mem_cons_of_mem _ (ih h.2.2 hs)

/-- If the lines of some statements are there, so is all that they need. -/
theorem mem_of_leaves (h : Ordered written) {first : List Statement}
    (hfirst : ∀ s ∈ first, ∀ t ∈ s.leaves, t ∈ written) {t : Statement} (ht : Needs first t) :
    t ∈ written := by
  induction ht with
  | leaf hs ht => exact hfirst _ hs _ ht
  | deeper _ ht ih => exact h.mem_of_needs (ih hfirst) ht

theorem of_append {newer : List Statement} (h : Ordered (newer ++ written)) : Ordered written := by
  induction newer with
  | nil => exact h
  | cons s newer ih => exact ih h.2.2

end Ordered

/-! ### Lines of a page -/

/-- A statement and the level at which its line was written. -/
structure Entry where
  level : Nat
  statement : Statement
  deriving DecidableEq

/-- The documentation and the line of an entry, on a page where each level is indented
by `unit`. -/
def Entry.text (d : Dialect) (unit : String) (entry : Entry) : String :=
  let indent := String.join (List.replicate entry.level unit)
  (match entry.statement.doc? with
    | none => ""
    | some doc => d.docHeader indent doc) ++
    indent ++ entry.statement.line d ++ "\n"

namespace Page

/-- Adds the lines of several statements. -/
def putAll (p : Page) (statements : List Statement) : Page :=
  statements.foldl put p

@[simp] theorem putAll_nil (p : Page) : p.putAll [] = p :=
  rfl

@[simp] theorem putAll_append (p : Page) (first second : List Statement) :
    p.putAll (first ++ second) = (p.putAll first).putAll second :=
  List.foldl_append

/-- A line is added behind the text at the depth of the page, and nothing else
changes. -/
theorem put_eq (p : Page) (s : Statement) :
    p.put s = { p with
      text := p.text ++ Entry.text p.dialect p.indentUnit ⟨p.depth, s⟩
      written := s :: p.written } := by
  unfold put addLine addDoc Entry.text
  cases s.doc? <;> simp [indent, String.append_assoc]

@[simp] theorem put_written (p : Page) (s : Statement) : (p.put s).written = s :: p.written := by
  rw [put_eq]

theorem putAll_eq (p : Page) (statements : List Statement) :
    p.putAll statements = { p with
      text := p.text ++ String.join
        (statements.map fun s => Entry.text p.dialect p.indentUnit ⟨p.depth, s⟩)
      written := statements.reverse ++ p.written } := by
  induction statements generalizing p with
  | nil => simp [String.join]
  | cons s statements ih =>
      rw [putAll, List.foldl_cons, ← putAll, ih, put_eq]
      simp [String.append_assoc]

theorem putAll_written (p : Page) (statements : List Statement) :
    (p.putAll statements).written = statements.reverse ++ p.written := by
  rw [putAll_eq]

theorem mem_putAll {p : Page} {statements : List Statement} {t : Statement} (h : t ∈ p.written) :
    t ∈ (p.putAll statements).written := by
  rw [putAll_written]
  exact List.mem_append_right _ h

/-- The lines that a page has in addition to those of an earlier one, the oldest
first. -/
def addedSince (q p : Page) : List Statement :=
  (q.written.take (q.written.length - p.written.length)).reverse

theorem addedSince_putAll (p : Page) (statements : List Statement) :
    (p.putAll statements).addedSince p = statements := by
  rw [addedSince, putAll_written, List.length_append, Nat.add_sub_cancel, List.take_left,
    List.reverse_reverse]

/-- The page with exactly these lines. -/
def ofEntries (dialect : Dialect) (unit : String) (level : Nat) (entries : List Entry) : Page where
  dialect := dialect
  indentUnit := unit
  depth := level
  text := String.join (entries.map (Entry.text dialect unit))
  written := (entries.map Entry.statement).reverse

theorem putAll_ofEntries (dialect : Dialect) (unit : String) (level : Nat) (entries : List Entry)
    (statements : List Statement) :
    (ofEntries dialect unit level entries).putAll statements =
      ofEntries dialect unit level (entries ++ statements.map (Entry.mk level)) := by
  rw [putAll_eq]
  simp [ofEntries, String.join_append, Function.comp_def]

/-! ### Writing statements -/

theorem write_of_not_sequence (p : Page) {s : Statement} (h : s.isSequence = false) :
    p.write s = (p.writeMissing s.initial).put s := by
  cases s with
  | sequence parts => simp [Statement.isSequence] at h
  | expression e doc => exact p.write_expression e doc
  | declaration name binding e doc => exact p.write_declaration name binding e doc

theorem writeMissing_cons (p : Page) (s : Statement) (statements : List Statement) :
    p.writeMissing (s :: statements) =
      (if s ∈ p.written then p else p.write s).writeMissing statements :=
  rfl

/-- A page on which more was written: lines were added, in a good order, and
the lines of `statements` are among those that are there now. -/
structure Extends (p q : Page) (statements : List Statement) : Prop where
  lines : ∃ added, q = p.putAll added
  ordered : Ordered q.written
  covers : ∀ s ∈ statements, ∀ t ∈ s.leaves, t ∈ q.written

theorem Extends.mem {p q : Page} {statements : List Statement} (h : p.Extends q statements)
    {t : Statement} (ht : t ∈ p.written) : t ∈ q.written := by
  obtain ⟨added, rfl⟩ := h.lines
  exact mem_putAll ht

theorem Extends.trans {p q r : Page} {first second : List Statement} (h : p.Extends q first)
    (h' : q.Extends r second) : p.Extends r (first ++ second) where
  lines := by
    obtain ⟨added, rfl⟩ := h.lines
    obtain ⟨added', rfl⟩ := h'.lines
    exact ⟨added ++ added', (putAll_append _ _ _).symm⟩
  ordered := h'.ordered
  covers s hs t ht := by
    rcases List.mem_append.1 hs with hs | hs
    · exact h'.mem (h.covers s hs t ht)
    · exact h'.covers s hs t ht

theorem extends_refl {p : Page} (hp : Ordered p.written) : p.Extends p [] :=
  ⟨⟨[], rfl⟩, hp, by simp⟩

/-- A statement that is on the page already is covered without being
written: it is no sequence, so it is its own line. -/
theorem extends_of_mem {p : Page} (hp : Ordered p.written) {s : Statement} (hs : s ∈ p.written) :
    p.Extends p [s] where
  lines := ⟨[], rfl⟩
  ordered := hp
  covers := by
    intro s' hs' t ht
    rw [List.mem_singleton.1 hs', Statement.leaves_eq_self (hp.isSequence_eq_false hs),
      List.mem_singleton] at ht
    exact ht ▸ hs

/-- A line may be added once everything that it needs is covered. -/
theorem Extends.put {p q : Page} {s : Statement} (h : p.Extends q s.initial)
    (hs : s.isSequence = false) : p.Extends (q.put s) [s] where
  lines := by
    obtain ⟨added, rfl⟩ := h.lines
    refine ⟨added ++ [s], ?_⟩
    rw [putAll_append]
    rfl
  ordered := by
    rw [put_written]
    exact ⟨hs, fun t ht => h.ordered.mem_of_leaves h.covers ht, h.ordered⟩
  covers := by
    intro s' hs' t ht
    rw [List.mem_singleton.1 hs', Statement.leaves_eq_self hs, List.mem_singleton] at ht
    rw [put_written, ht]
    exact List.mem_cons_self

theorem extends_writeMissing {statements : List Statement}
    (hwrite : ∀ s ∈ statements, ∀ p : Page, Ordered p.written → p.Extends (p.write s) [s])
    {p : Page} (hp : Ordered p.written) : p.Extends (p.writeMissing statements) statements := by
  induction statements generalizing p with
  | nil => exact extends_refl hp
  | cons s statements ih =>
      obtain ⟨hs, hstatements⟩ := List.forall_mem_cons.1 hwrite
      have hfirst : p.Extends (if s ∈ p.written then p else p.write s) [s] := by
        split
        · exact extends_of_mem hp (by assumption)
        · exact hs p hp
      rw [writeMissing_cons]
      exact hfirst.trans (ih hstatements hfirst.ordered)

theorem extends_foldl_write {statements : List Statement}
    (hwrite : ∀ s ∈ statements, ∀ p : Page, Ordered p.written → p.Extends (p.write s) [s])
    {p : Page} (hp : Ordered p.written) : p.Extends (statements.foldl write p) statements := by
  induction statements generalizing p with
  | nil => exact extends_refl hp
  | cons s statements ih =>
      obtain ⟨hs, hstatements⟩ := List.forall_mem_cons.1 hwrite
      have hfirst := hs p hp
      rw [List.foldl_cons]
      exact hfirst.trans (ih hstatements hfirst.ordered)

/-- Writing a statement adds its lines and all that they need. -/
theorem extends_write (s : Statement) :
    ∀ p : Page, Ordered p.written → p.Extends (p.write s) [s] := by
  induction s using Statement.dependencyInduction with
  | sequence parts ih =>
      intro p hp
      have hparts := extends_foldl_write ih hp
      rw [← write_sequence] at hparts
      refine ⟨hparts.lines, hparts.ordered, ?_⟩
      intro s hs t ht
      rw [List.mem_singleton.1 hs, Statement.leaves, Statement.mem_leavesAll] at ht
      obtain ⟨part, hpart, ht⟩ := ht
      exact hparts.covers part hpart t ht
  | line s hs ih =>
      intro p hp
      rw [write_of_not_sequence p hs]
      exact (extends_writeMissing ih hp).put hs

theorem mem_written_foldl {f : Page → Statement → Page} {statements : List Statement}
    (hf : ∀ s ∈ statements, ∀ (p : Page) (t : Statement),
      t ∈ (f p s).written → t ∈ p.written ∨ Needs [s] t)
    {p : Page} {t : Statement} (ht : t ∈ (statements.foldl f p).written) :
    t ∈ p.written ∨ Needs statements t := by
  induction statements generalizing p with
  | nil => exact .inl ht
  | cons s statements ih =>
      obtain ⟨hs, hstatements⟩ := List.forall_mem_cons.1 hf
      rcases ih hstatements ht with ht | ht
      · exact (hs p t ht).imp id fun h => h.mono (by simp)
      · exact .inr (ht.mono (List.subset_cons_self s statements))

theorem mem_written_writeMissing {statements : List Statement}
    (hwrite : ∀ s ∈ statements, ∀ (p : Page) (t : Statement),
      t ∈ (p.write s).written → t ∈ p.written ∨ Needs [s] t)
    {p : Page} {t : Statement} (ht : t ∈ (p.writeMissing statements).written) :
    t ∈ p.written ∨ Needs statements t := by
  refine mem_written_foldl (fun s hs p t ht => ?_) ht
  split at ht
  · exact .inl ht
  · exact hwrite s hs p t ht

/-- Writing a statement adds no line that it does not need. -/
theorem mem_written_write (s : Statement) :
    ∀ (p : Page) (t : Statement), t ∈ (p.write s).written → t ∈ p.written ∨ Needs [s] t := by
  induction s using Statement.dependencyInduction with
  | sequence parts ih =>
      intro p t ht
      rw [write_sequence] at ht
      exact (mem_written_foldl ih ht).imp id Needs.sequence
  | line s hs ih =>
      intro p t ht
      have hself : Needs [s] s := by
        refine .leaf (List.mem_singleton_self s) ?_
        rw [Statement.leaves_eq_self hs]
        exact List.mem_singleton_self s
      rw [write_of_not_sequence p hs, put_written, List.mem_cons] at ht
      rcases ht with rfl | ht
      · exact .inr hself
      · exact (mem_written_writeMissing ih ht).imp id hself.deeper

end Page

namespace Draft

/-- The line of `t` is on the page, or a statement that waits will bring it
there. -/
def Secured (d : Draft) (t : Statement) : Prop :=
  t ∈ d.page.written ∨ ∃ s ∈ d.pending, t ∈ s.leaves

/-- A draft on which more was written: its page was extended, and neither the
lines of `statements` nor anything that waited is lost. -/
structure Extends (d d' : Draft) (statements : List Statement) : Prop where
  page : d.page.Extends d'.page []
  covers : ∀ s ∈ statements, ∀ t ∈ s.leaves, d'.Secured t
  keeps : ∀ t, d.Secured t → d'.Secured t

theorem Extends.trans {d d' d'' : Draft} {first second : List Statement} (h : d.Extends d' first)
    (h' : d'.Extends d'' second) : d.Extends d'' (first ++ second) where
  page := h.page.trans h'.page
  covers s hs t ht := by
    rcases List.mem_append.1 hs with hs | hs
    · exact h'.keeps t (h.covers s hs t ht)
    · exact h'.covers s hs t ht
  keeps t ht := h'.keeps t (h.keeps t ht)

theorem extends_enqueue {d : Draft} (hd : Ordered d.page.written) (statements : List Statement) :
    d.Extends (d.enqueue statements) statements where
  page := Page.extends_refl hd
  covers s hs t ht := .inr ⟨s, List.mem_append_right _ hs, ht⟩
  keeps t ht := by
    rcases ht with ht | ⟨s, hs, ht⟩
    · exact .inl ht
    · exact .inr ⟨s, List.mem_append_left _ hs, ht⟩

theorem page_extends_flush {d : Draft} (hd : Ordered d.page.written) :
    d.page.Extends d.flush.page d.pending :=
  Page.extends_writeMissing (fun s _ => Page.extends_write s) hd

theorem extends_flush {d : Draft} (hd : Ordered d.page.written) : d.Extends d.flush [] where
  page := ⟨(page_extends_flush hd).lines, (page_extends_flush hd).ordered, by simp⟩
  covers := by simp
  keeps t ht := by
    rcases ht with ht | ⟨s, hs, ht⟩
    · exact .inl ((page_extends_flush hd).mem ht)
    · exact .inl ((page_extends_flush hd).covers s hs t ht)

theorem extends_writeOn {d : Draft} (hd : Ordered d.page.written) (s : Statement) :
    d.Extends { d with page := d.page.write s } [s] where
  page := ⟨(Page.extends_write s d.page hd).lines, (Page.extends_write s d.page hd).ordered,
    by simp⟩
  covers s' hs' t ht := .inl ((Page.extends_write s d.page hd).covers s' hs' t ht)
  keeps t ht := ht.imp (Page.extends_write s d.page hd).mem id

mutual

theorem extends_append : ∀ (s : Statement) {d : Draft}, Ordered d.page.written →
    d.Extends (d.append s) [s]
  | .sequence parts, d, hd => by
      have hparts := extends_appendAll parts hd
      refine ⟨hparts.page, ?_, hparts.keeps⟩
      intro s hs t ht
      rw [List.mem_singleton.1 hs, Statement.leaves, Statement.mem_leavesAll] at ht
      obtain ⟨part, hpart, ht⟩ := ht
      exact hparts.covers part hpart t ht
  | .expression e doc, d, hd =>
      (extends_flush hd).trans (extends_writeOn (extends_flush hd).page.ordered _)
  | .declaration name binding (some e) doc, d, hd =>
      (extends_flush hd).trans (extends_writeOn (extends_flush hd).page.ordered _)
  | .declaration name binding none doc, d, hd => extends_writeOn hd _

theorem extends_appendAll : ∀ (statements : List Statement) {d : Draft},
    Ordered d.page.written → d.Extends (d.appendAll statements) statements
  | [], d, hd => ⟨Page.extends_refl hd, by simp, fun _ ht => ht⟩
  | s :: statements, d, hd => by
      have hfirst := extends_append s hd
      exact hfirst.trans (extends_appendAll statements hfirst.page.ordered)

end

/-! ### Runs -/

/-- One operation on a draft. -/
inductive Step where
  | enqueue (statements : List Statement)
  | flush
  | fragment (e : Expr)
  | append (s : Statement)
  | indentMore
  | indentLess

/-- The statements that an operation hands to the draft. -/
def Step.statements : Step → List Statement
  | .enqueue statements => statements
  | .fragment e => e.initial
  | .append s => [s]
  | .flush => []
  | .indentMore => []
  | .indentLess => []

def step (d : Draft) : Step → Draft
  | .enqueue statements => d.enqueue statements
  | .flush => d.flush
  | .fragment e => (d.fragment e).1
  | .append s => d.append s
  | .indentMore => d.indentMore
  | .indentLess => d.indentLess

def run (d : Draft) (steps : List Step) : Draft :=
  steps.foldl step d

/-- The level after an operation that was called at a level. -/
def Step.levelAfter (level : Nat) : Step → Nat
  | .indentMore => level + 1
  | .indentLess => level - 1
  | .enqueue _ | .flush | .fragment _ | .append _ => level

/-- The lines that an operation adds if it is called at a level. -/
def added (d : Draft) (level : Nat) (st : Step) : List Entry :=
  ((d.step st).page.addedSince d.page).map (Entry.mk level)

/-- The lines of a run in the order of writing. The levels are counted along the
operations, from `level` on. -/
def entries (d : Draft) (level : Nat) : List Step → List Entry
  | [] => []
  | st :: steps => d.added level st ++ (d.step st).entries (st.levelAfter level) steps

theorem entries_append (d : Draft) (level : Nat) (first second : List Step) :
    d.entries level (first ++ second) =
      d.entries level first ++
        (d.run first).entries (first.foldl Step.levelAfter level) second := by
  induction first generalizing d level with
  | nil => rfl
  | cons st first ih =>
      rw [List.cons_append, entries, entries, ih, List.append_assoc]
      rfl

/-- A draft in the middle of a run: at which level it is, which lines its page is made
of, and that nothing is lost of what was handed to it. -/
structure Holds (d : Draft) (dialect : Dialect) (unit : String) (level : Nat)
    (entries : List Entry) (given : List Statement) : Prop where
  page_eq : d.page = .ofEntries dialect unit level entries
  ordered : Ordered d.page.written
  secured : ∀ s ∈ given, ∀ t ∈ s.leaves, d.Secured t

namespace Holds

variable {d d' : Draft} {dialect : Dialect} {unit : String} {level : Nat} {entries : List Entry}
  {given statements : List Statement}

theorem text_eq (h : d.Holds dialect unit level entries given) :
    d.page.text = String.join (entries.map (Entry.text dialect unit)) := by
  rw [h.page_eq]
  rfl

theorem written_eq (h : d.Holds dialect unit level entries given) :
    d.page.written = (entries.map Entry.statement).reverse := by
  rw [h.page_eq]
  rfl

theorem mem_written_iff (h : d.Holds dialect unit level entries given) {t : Statement} :
    t ∈ d.page.written ↔ t ∈ entries.map Entry.statement := by
  rw [h.written_eq, List.mem_reverse]

theorem of_extends (h : d.Holds dialect unit level entries given) (hd : d.Extends d' statements) :
    d'.Holds dialect unit level
      (entries ++ (d'.page.addedSince d.page).map (Entry.mk level)) (given ++ statements) where
  page_eq := by
    obtain ⟨added, hadded⟩ := hd.page.lines
    rw [hadded, Page.addedSince_putAll, h.page_eq, Page.putAll_ofEntries]
  ordered := hd.page.ordered
  secured := by
    intro s hs t ht
    rcases List.mem_append.1 hs with hs | hs
    · exact hd.keeps t (h.secured s hs t ht)
    · exact hd.covers s hs t ht

/-- Only the level changes. -/
theorem atLevel (h : d.Holds dialect unit level entries given) (newLevel : Nat) :
    Holds { d with page := { d.page with depth := newLevel } } dialect unit newLevel entries
      given where
  page_eq := by
    rw [h.page_eq]
    rfl
  ordered := h.ordered
  secured := h.secured

/-- One operation. -/
theorem step (h : d.Holds dialect unit level entries given) (st : Step) :
    (d.step st).Holds dialect unit (st.levelAfter level) (entries ++ d.added level st)
      (given ++ st.statements) := by
  have hdepth : d.page.depth = level := by
    rw [h.page_eq]
    rfl
  cases st with
  | enqueue statements => exact h.of_extends (extends_enqueue h.ordered statements)
  | flush => exact h.of_extends (extends_flush h.ordered)
  | fragment e =>
      have hqueue := extends_enqueue h.ordered e.initial
      have hboth := hqueue.trans (extends_flush hqueue.page.ordered)
      rw [List.append_nil] at hboth
      exact h.of_extends hboth
  | append s => exact h.of_extends (extends_append s h.ordered)
  | indentMore =>
      have hnone : d.added level .indentMore = [] := by
        simp [added, Page.addedSince, Draft.step, indentMore]
      rw [hnone, Step.statements, List.append_nil, List.append_nil]
      exact hdepth ▸ h.atLevel (d.page.depth + 1)
  | indentLess =>
      have hnone : d.added level .indentLess = [] := by
        simp [added, Page.addedSince, Draft.step, indentLess]
      rw [hnone, Step.statements, List.append_nil, List.append_nil]
      exact hdepth ▸ h.atLevel (d.page.depth - 1)

/-- A whole run. -/
theorem run (h : d.Holds dialect unit level entries given) (steps : List Step) :
    (d.run steps).Holds dialect unit (steps.foldl Step.levelAfter level)
      (entries ++ d.entries level steps) (given ++ steps.flatMap Step.statements) := by
  induction steps generalizing d level entries given with
  | nil =>
      rw [Draft.entries, List.flatMap_nil, List.append_nil, List.append_nil]
      exact h
  | cons st steps ih =>
      have hrest := ih (h.step st)
      rw [List.append_assoc, List.append_assoc, ← List.flatMap_cons] at hrest
      exact hrest

theorem mem_of_pending_nil (h : d.Holds dialect unit level entries given)
    (hpending : d.pending = []) {s t : Statement} (hs : s ∈ given) (ht : t ∈ s.leaves) :
    t ∈ entries.map Entry.statement := by
  rw [← h.mem_written_iff]
  rcases h.secured s hs t ht with ht | ⟨u, hu, -⟩
  · exact ht
  · simp [hpending] at hu

theorem mem_of_needs (h : d.Holds dialect unit level entries given) (hpending : d.pending = [])
    {t : Statement} (ht : Needs given t) : t ∈ entries.map Entry.statement := by
  rw [← h.mem_written_iff]
  refine h.ordered.mem_of_leaves (fun s hs u hu => ?_) ht
  exact h.mem_written_iff.2 (h.mem_of_pending_nil hpending hs hu)

/-- The entries before one hold everything that its statement needs. -/
theorem mem_before {before after : List Entry} {entry : Entry}
    (h : d.Holds dialect unit level (before ++ entry :: after) given) {t : Statement}
    (ht : Needs entry.statement.initial t) : t ∈ before.map Entry.statement := by
  have hordered := h.ordered
  rw [h.written_eq, List.map_append, List.reverse_append, List.map_cons, List.reverse_cons,
    List.append_assoc] at hordered
  exact List.mem_reverse.1 (hordered.of_append.2.1 t ht)

theorem isLine (h : d.Holds dialect unit level entries given) {entry : Entry}
    (hentry : entry ∈ entries) :
    entry.statement.IsLine dialect (entry.statement.line dialect) :=
  Statement.isLine_line dialect
    (h.ordered.isSequence_eq_false (h.mem_written_iff.2 (List.mem_map_of_mem hentry)))

end Holds

/-- Any run from an empty draft. -/
theorem holds_run (dialect : Dialect) (unit : String) (steps : List Step) :
    let start := (blank dialect).indentedBy unit
    (start.run steps).Holds dialect unit (steps.foldl Step.levelAfter 0) (start.entries 0 steps)
      (steps.flatMap Step.statements) := by
  intro start
  have hstart : start.Holds dialect unit 0 [] [] := ⟨rfl, trivial, by simp⟩
  exact hstart.run steps

/-- The finished draft, to which a flush is all that is still done. -/
theorem holds_finish (dialect : Dialect) (unit : String) (steps : List Step) :
    let start := (blank dialect).indentedBy unit
    (start.run steps).flush.Holds dialect unit (steps.foldl Step.levelAfter 0)
      (start.entries 0 (steps ++ [.flush])) (steps.flatMap Step.statements) := by
  intro start
  have hflush := (holds_run dialect unit steps).step .flush
  rw [Step.statements, List.append_nil] at hflush
  rw [entries_append, entries, entries, List.append_nil]
  exact hflush

/-- In every run the lines that a statement needs come before its own, an
expression is handed out only when all that it needs is on the page, and the
finished text has the lines of everything that was enqueued or appended. The text
is made of these lines and their documentation, each at the level that the
operations had reached, and of nothing else. -/
theorem needed_lines_come_first (dialect : Dialect) (unit : String) (steps : List Step) :
    let start := (blank dialect).indentedBy unit
    let entries := start.entries 0 (steps ++ [.flush])
    (start.run steps).finish = String.join (entries.map (Entry.text dialect unit)) ∧
      (∀ entry ∈ entries, entry.statement.IsLine dialect (entry.statement.line dialect)) ∧
      (∀ before entry after, entries = before ++ entry :: after →
        ∀ t, Needs entry.statement.initial t → t ∈ before.map Entry.statement) ∧
      (∀ earlier e later, steps = earlier ++ .fragment e :: later →
        let shown := start.entries 0 (earlier ++ [.fragment e])
        shown <+: entries ∧
          (start.run (earlier ++ [.fragment e])).page.text =
            String.join (shown.map (Entry.text dialect unit)) ∧
          ∀ t, Needs e.initial t → t ∈ shown.map Entry.statement) ∧
      ∀ s ∈ steps.flatMap Step.statements, ∀ t ∈ s.leaves,
        t ∈ entries.map Entry.statement := by
  intro start entries
  have hfinal : (start.run steps).flush.Holds dialect unit _ entries _ :=
    holds_finish dialect unit steps
  refine ⟨hfinal.text_eq, fun entry => hfinal.isLine, ?_, ?_, ?_⟩
  · intro before entry after hsplit t ht
    rw [hsplit] at hfinal
    exact hfinal.mem_before ht
  · rintro earlier e later rfl shown
    have hshown : (start.run (earlier ++ [.fragment e])).Holds dialect unit _ shown _ :=
      holds_run dialect unit (earlier ++ [.fragment e])
    refine ⟨?_, hshown.text_eq, fun t ht => ?_⟩
    · have hsplit : earlier ++ .fragment e :: later ++ [.flush] =
          (earlier ++ [.fragment e]) ++ (later ++ [.flush]) := by simp
      have hentries : entries = shown ++ _ :=
        (congrArg (start.entries 0) hsplit).trans (start.entries_append 0 _ _)
      rw [hentries]
      exact List.prefix_append _ _
    · -- The queue is empty after the fragment, so nothing of it is still to come.
      have hpending : (start.run (earlier ++ [.fragment e])).pending = [] := by
        rw [Draft.run, List.foldl_append]
        rfl
      refine hshown.mem_of_needs hpending (ht.mono ?_)
      simp [Step.statements]
  · intro s hs t ht
    exact hfinal.mem_of_pending_nil rfl hs ht

/-- A fragment inside an indent brings out a nested sequence, whose declaration needs
another one first. What is appended behind it finds its line there, and what still
waits is written at the end. -/
theorem needed_lines_come_first_nested :
    let t : Statement := .declaration "t" .constant (some (.literal (.int 1))) none
    let u : Statement :=
      .declaration "u" .variable (some (.hoisted [t] (.name "t"))) (some "Used twice.")
    let inner : Expr := .call (.name "f") [.hoisted [.sequence [.sequence [u]]] (.name "u")]
    let call : Statement := .expression (.call (.name "g") [.hoisted [t] (.name "t")]) none
    let last : Statement := .declaration "last" .variable none none
    let steps : List Step :=
      [.indentMore, .fragment inner, .indentLess, .append call, .enqueue [last]]
    let start := (blank .javascript).indentedBy "  "
    Needs inner.initial t ∧
      (start.run [.indentMore, .fragment inner]).page.text =
        "  const t = 1;\n  /** Used twice. */\n  let u = t;\n" ∧
      start.entries 0 (steps ++ [.flush]) = [⟨1, t⟩, ⟨1, u⟩, ⟨0, call⟩, ⟨0, last⟩] ∧
      (start.run steps).finish =
        "  const t = 1;\n  /** Used twice. */\n  let u = t;\ng(t);\nlet last;\n" := by
  intro t u inner call last steps start
  have hneeds : Needs inner.initial t := by
    have hgroup : .sequence [.sequence [u]] ∈ inner.initial := by decide +kernel
    have hu : Needs inner.initial u := .leaf hgroup List.mem_cons_self
    have ht : t ∈ u.initial := by decide +kernel
    exact hu.deeper (.leaf ht List.mem_cons_self)
  obtain ⟨htext, -, -, hfragment, -⟩ := needed_lines_come_first .javascript "  " steps
  obtain ⟨-, hshown, -⟩ :=
    hfragment [.indentMore] inner [.indentLess, .append call, .enqueue [last]] rfl
  refine ⟨hneeds, hshown.trans ?_, ?_, htext.trans ?_⟩ <;> decide +kernel

end Draft

end TargetCode
