import TargetCode.Proofs.DocHeaders
import TargetCode.Proofs.Hoisting
import TargetCode.Proofs.QuotedText

/-!
A statement takes one line of the finished text.

Python ends a statement where its line ends, so a line break inside a statement
would change the program. The text of an expression has none, whatever its
string literals and the keys of its objects are, as long as its names have none.
So the finished text of a draft, cut at line feeds, has a line for each statement
that was written, in the order of writing. Each is indented by the level that was
in force at that moment, also where the statement had waited since another level.
-/

namespace TargetCode

namespace Text

/-- Whether one of the two languages may end a line at a character. -/
def breaksLine (c : Char) : Bool :=
  c = '\n' || c = '\r' || c = '\u2028' || c = '\u2029'

def isUnbroken (cs : List Char) : Bool :=
  cs.all fun c => !breaksLine c

@[simp] theorem isUnbroken_nil : isUnbroken [] = true :=
  rfl

@[simp] theorem isUnbroken_cons (c : Char) (cs : List Char) :
    isUnbroken (c :: cs) = (!breaksLine c && isUnbroken cs) :=
  rfl

@[simp] theorem isUnbroken_append (cs ds : List Char) :
    isUnbroken (cs ++ ds) = (isUnbroken cs && isUnbroken ds) :=
  List.all_append

theorem isUnbroken_iff {cs : List Char} :
    isUnbroken cs = true ↔ '\n' ∉ cs ∧ '\r' ∉ cs ∧ '\u2028' ∉ cs ∧ '\u2029' ∉ cs := by
  induction cs with
  | nil => simp
  | cons c cs ih =>
      simp only [isUnbroken_cons, breaksLine, Bool.and_eq_true, ih, List.mem_cons]
      grind

theorem isUnbroken_of_subset {cs ds : List Char} (h : isUnbroken ds) (hsubset : cs ⊆ ds) :
    isUnbroken cs :=
  List.all_eq_true.2 fun c hc => List.all_eq_true.1 h c (hsubset hc)

theorem isUnbroken_join {texts : List String} (h : ∀ s ∈ texts, isUnbroken s.toList) :
    isUnbroken (String.join texts).toList := by
  induction texts with
  | nil => rfl
  | cons s texts ih =>
      obtain ⟨hs, htexts⟩ := List.forall_mem_cons.1 h
      rw [String.join_cons, String.toList_append, isUnbroken_append, hs, ih htexts]
      rfl

/-- Texts with commas between them. -/
theorem isUnbroken_separated {texts : List String} (h : ∀ s ∈ texts, isUnbroken s.toList) :
    isUnbroken (", ".intercalate texts).toList := by
  induction texts with
  | nil => rfl
  | cons s texts ih =>
      obtain ⟨hs, htexts⟩ := List.forall_mem_cons.1 h
      cases texts with
      | nil => simpa using hs
      | cons t texts =>
          rw [String.intercalate_cons_cons, String.toList_append, String.toList_append,
            isUnbroken_append, isUnbroken_append, hs, ih htexts]
          rfl

theorem isUnbroken_quote (s : String) : isUnbroken (quote s).toList := by
  have hbody : isUnbroken (escaped s).toList := by
    refine List.all_eq_true.2 fun c hc => ?_
    obtain ⟨hcontrol, hline, hparagraph⟩ := staysInLine_escaped hc
    have hreturn : c ≠ '\n' ∧ c ≠ '\r' := by
      constructor <;> (rintro rfl; exact absurd hcontrol (by decide))
    simp [breaksLine, hreturn, hline, hparagraph]
  rw [toList_quote]
  simp [breaksLine, hbody]

/-- Lines that end in line feeds, cut at these. -/
theorem splitOn_endedLines {lines : List (List Char)} (h : ∀ line ∈ lines, isUnbroken line) :
    (lines.flatMap (· ++ ['\n'])).splitOn '\n' = lines ++ [[]] := by
  induction lines with
  | nil => rfl
  | cons line lines ih =>
      obtain ⟨hline, hlines⟩ := List.forall_mem_cons.1 h
      have hfeed : '\n' ∉ line := (isUnbroken_iff.1 hline).1
      rw [List.flatMap_cons, List.append_assoc, List.singleton_append,
        List.splitOn_append_cons_self_of_not_mem hfeed, ih hlines, List.cons_append]

/-- The only line breaks of such lines are their ends. -/
theorem eq_feed_of_mem_endedLines {lines : List (List Char)} (h : ∀ line ∈ lines, isUnbroken line)
    {c : Char} (hc : c ∈ lines.flatMap (· ++ ['\n'])) (hbreak : breaksLine c) : c = '\n' := by
  obtain ⟨line, hline, hc⟩ := List.mem_flatMap.1 hc
  rcases List.mem_append.1 hc with hc | hc
  · have hplain := List.all_eq_true.1 (h line hline) c hc
    simp [hbreak] at hplain
  · exact List.mem_singleton.1 hc

end Text

open Text

namespace Decimal

theorem isUnbroken_natural (n : Nat) : isUnbroken (natural n).toList := by
  rw [natural, Nat.toList_repr]
  refine List.all_eq_true.2 fun c hc => ?_
  have hdigit : c.isDigit := Nat.isDigit_of_mem_toDigits (by decide) (by decide) hc
  rw [Bool.not_eq_true']
  by_contra hbreak
  simp only [breaksLine, Bool.not_eq_false, Bool.or_eq_true, decide_eq_true_eq] at hbreak
  rcases hbreak with ((rfl | rfl) | rfl) | rfl <;> exact absurd hdigit (by decide)

theorem isUnbroken_integer (i : Int) : isUnbroken (integer i).toList := by
  unfold integer
  split
  · simp [breaksLine, isUnbroken_natural]
  · exact isUnbroken_natural _

theorem isUnbroken_zeros (n : Nat) : isUnbroken (zeros n) := by
  refine List.all_eq_true.2 fun c hc => ?_
  obtain rfl := List.eq_of_mem_replicate hc
  decide

theorem isUnbroken_positional {digits : List Char} (h : isUnbroken digits) (lead : Int) :
    isUnbroken (positional digits lead) := by
  unfold positional
  split
  · simp [breaksLine, isUnbroken_zeros, h]
  · have hwhole := isUnbroken_of_subset h (List.take_subset (lead.toNat + 1) digits)
    have hfraction := isUnbroken_of_subset h (List.drop_subset (lead.toNat + 1) digits)
    dsimp only
    split
    · simp [breaksLine, isUnbroken_zeros, hwhole]
    · simp [breaksLine, isUnbroken_zeros, hwhole, hfraction]

theorem isUnbroken_scientific {digits : List Char} (h : isUnbroken digits) (lead : Int) :
    isUnbroken (scientific digits lead) := by
  have hfirst := isUnbroken_of_subset h (List.take_subset 1 digits)
  have hfraction := isUnbroken_of_subset h (List.drop_subset 1 digits)
  unfold scientific
  dsimp only
  split
  · simp [breaksLine, hfirst, isUnbroken_integer]
  · rw [isUnbroken_append, isUnbroken_append, isUnbroken_cons, isUnbroken_cons, hfirst, hfraction,
      isUnbroken_integer]
    decide

theorem Layout.isUnbroken_write (layout : Layout) (x : Decimal) :
    isUnbroken (layout.write x).toList := by
  have hdigits := isUnbroken_natural x.significand
  rw [Layout.write, String.toList_ofList]
  split
  · exact isUnbroken_positional hdigits _
  · exact isUnbroken_scientific hdigits _

end Decimal

namespace Dialect

theorem isUnbroken_float (d : Dialect) (x : Binary64) : isUnbroken (d.float x).toList := by
  unfold float
  split
  · cases d <;> decide
  · split
    · cases d <;> split <;> decide
    · rw [Binary64.finiteText]
      split <;> simp [breaksLine, Decimal.Layout.isUnbroken_write]

theorem isUnbroken_literal (d : Dialect) (v : Literal) : isUnbroken (d.literal v).toList := by
  cases v with
  | str s => exact isUnbroken_quote s
  | int i => exact Decimal.isUnbroken_integer i
  | float x => exact d.isUnbroken_float x
  | bool b => cases d <;> cases b <;> decide
  | null => cases d <;> decide

theorem isUnbroken_binarySymbol (d : Dialect) (o : BinaryOperator) :
    isUnbroken (d.binarySymbol o).toList := by
  cases d <;> cases o <;> decide

theorem isUnbroken_unarySymbol (d : Dialect) (o : UnaryOperator) :
    isUnbroken (d.unarySymbol o).toList := by
  cases d <;> cases o <;> decide

theorem isUnbroken_statementEnd (d : Dialect) : isUnbroken d.statementEnd.toList := by
  cases d <;> decide

theorem isUnbroken_declarationLine (d : Dialect) {name : String} (hname : isUnbroken name.toList)
    (binding : Binding) {value : Option String} (hvalue : ∀ text ∈ value, isUnbroken text.toList) :
    isUnbroken (d.declarationLine name binding value).toList := by
  cases value with
  | none =>
      cases d <;> cases binding <;>
        simp [declarationLine, keyword?, statementEnd, breaksLine, hname]
  | some text =>
      have htext := hvalue text rfl
      cases d <;> cases binding <;>
        simp [declarationLine, keyword?, statementEnd, breaksLine, hname, htext]

end Dialect

/-! ### Expressions and statements -/

mutual

/-- Whether the names in an expression have no line break in them, as
identifiers and dotted paths have none, and the statements attached to it or to
its parts have no documentation and no such names either. Literals and the keys
of objects may be anything. -/
def Expr.tidy : Expr → Bool
  | .literal _ => true
  | .name path => isUnbroken path.toList
  | .unary _ e => e.tidy
  | .binary _ l r => l.tidy && r.tidy
  | .conditional c t f => c.tidy && t.tidy && f.tidy
  | .call f args => f.tidy && Expr.tidyAll args
  | .member e field => e.tidy && isUnbroken field.toList
  | .index e key => e.tidy && key.tidy
  | .array es => Expr.tidyAll es
  | .object entries => Expr.tidyEntries entries
  | .hoisted first e => Statement.tidyAll first && e.tidy
termination_by structural e => e

def Expr.tidyAll : List Expr → Bool
  | [] => true
  | e :: es => e.tidy && Expr.tidyAll es
termination_by structural es => es

def Expr.tidyEntries : List (String × Expr) → Bool
  | [] => true
  | (_, e) :: es => e.tidy && Expr.tidyEntries es
termination_by structural es => es

def Expr.tidyOption : Option Expr → Bool
  | none => true
  | some e => e.tidy
termination_by structural e => e

/-- Whether a statement has no documentation and no line break in its names. -/
def Statement.tidy : Statement → Bool
  | .sequence parts => Statement.tidyAll parts
  | .expression e doc => e.tidy && doc.isNone
  | .declaration name _ e doc => isUnbroken name.toList && Expr.tidyOption e && doc.isNone
termination_by structural s => s

def Statement.tidyAll : List Statement → Bool
  | [] => true
  | s :: statements => s.tidy && Statement.tidyAll statements
termination_by structural statements => statements

end

theorem Statement.tidyAll_iff {statements : List Statement} :
    tidyAll statements = true ↔ ∀ s ∈ statements, s.tidy := by
  induction statements with
  | nil => simp [tidyAll]
  | cons s statements ih => simp [tidyAll, ih]

theorem Expr.isUnbroken_enclose {text : String} (h : isUnbroken text.toList) (wrap : Bool) :
    isUnbroken (enclose wrap text).toList := by
  cases wrap <;> simp [enclose, breaksLine, h]

theorem Expr.isUnbroken_unaryText {text : String} (h : isUnbroken text.toList) (d : Dialect)
    (o : UnaryOperator) (wrap : Bool) : isUnbroken (unaryText d o wrap text).toList := by
  unfold unaryText
  split
  · simp [breaksLine, h, d.isUnbroken_unarySymbol]
  · simp [h, d.isUnbroken_unarySymbol, isUnbroken_enclose]

mutual

/-- No operator, bracket, literal or key brings a line break. -/
theorem Expr.isUnbroken_render (d : Dialect) : ∀ e : Expr, e.tidy → isUnbroken (e.render d).toList
  | .literal v, _ => d.isUnbroken_literal v
  | .name _, h => h
  | .unary o e, h => isUnbroken_unaryText (isUnbroken_render d e h) d o _
  | .binary o l r, h => by
      rw [tidy, Bool.and_eq_true] at h
      have hl := isUnbroken_render d l h.1
      have hr := isUnbroken_render d r h.2
      simp [render, breaksLine, isUnbroken_enclose, hl, hr, d.isUnbroken_binarySymbol]
  | .conditional c t f, h => by
      simp only [tidy, Bool.and_eq_true] at h
      have hc := isUnbroken_render d c h.1.1
      have ht := isUnbroken_render d t h.1.2
      have hf := isUnbroken_render d f h.2
      cases d <;> simp [render, breaksLine, isUnbroken_enclose, hc, ht, hf]
  | .call f args, h => by
      rw [tidy, Bool.and_eq_true] at h
      have hf := isUnbroken_render d f h.1
      have hargs := isUnbroken_separated (isUnbroken_renderAll d args h.2)
      simp [-String.toList_intercalate, render, breaksLine, isUnbroken_enclose, hf, hargs]
  | .member e field, h => by
      rw [tidy, Bool.and_eq_true] at h
      have he := isUnbroken_render d e h.1
      simp [render, breaksLine, isUnbroken_enclose, he, h.2]
  | .index e key, h => by
      rw [tidy, Bool.and_eq_true] at h
      have he := isUnbroken_render d e h.1
      have hkey := isUnbroken_render d key h.2
      simp [render, breaksLine, isUnbroken_enclose, he, hkey]
  | .array es, h => by
      have hes := isUnbroken_separated (isUnbroken_renderAll d es h)
      simp [-String.toList_intercalate, render, breaksLine, hes]
  | .object entries, h => by
      have hentries := isUnbroken_separated (isUnbroken_renderEntries d entries h)
      simp [-String.toList_intercalate, render, breaksLine, hentries]
  | .hoisted _ e, h => by
      rw [tidy, Bool.and_eq_true] at h
      exact isUnbroken_render d e h.2

theorem Expr.isUnbroken_renderAll (d : Dialect) : ∀ es : List Expr, tidyAll es →
    ∀ text ∈ renderAll d es, isUnbroken text.toList
  | [], _ => by simp [renderAll]
  | e :: es, h => by
      rw [tidyAll, Bool.and_eq_true] at h
      rw [renderAll, List.forall_mem_cons]
      exact ⟨isUnbroken_render d e h.1, isUnbroken_renderAll d es h.2⟩

theorem Expr.isUnbroken_renderEntries (d : Dialect) : ∀ entries : List (String × Expr),
    tidyEntries entries → ∀ text ∈ renderEntries d entries, isUnbroken text.toList
  | [], _ => by simp [renderEntries]
  | (key, e) :: entries, h => by
      rw [tidyEntries, Bool.and_eq_true] at h
      rw [renderEntries, List.forall_mem_cons]
      have he := isUnbroken_render d e h.1
      refine ⟨?_, isUnbroken_renderEntries d entries h.2⟩
      simp [breaksLine, d.isUnbroken_literal, he]

end

namespace Statement

theorem isUnbroken_line (d : Dialect) {s : Statement} (h : s.tidy) :
    isUnbroken (s.line d).toList := by
  cases s with
  | sequence parts => rfl
  | expression e doc =>
      rw [tidy, Bool.and_eq_true] at h
      simp [line, e.isUnbroken_render d h.1, d.isUnbroken_statementEnd]
  | declaration name binding e doc =>
      simp only [tidy, Bool.and_eq_true] at h
      refine d.isUnbroken_declarationLine h.1.1 binding fun text htext => ?_
      obtain ⟨value, rfl, rfl⟩ := Option.map_eq_some_iff.1 htext
      exact value.isUnbroken_render d h.1.2

theorem doc?_eq_none {s : Statement} (h : s.tidy) : s.doc? = none := by
  cases s with
  | sequence parts => rfl
  | expression e doc =>
      rw [tidy, Bool.and_eq_true, Option.isNone_iff_eq_none] at h
      exact h.2
  | declaration name binding e doc =>
      rw [tidy, Bool.and_eq_true, Option.isNone_iff_eq_none] at h
      exact h.2

end Statement

/-! ### What tidy statements need -/

mutual

/-- What is attached to a tidy expression, or to a part of it, is tidy. -/
theorem Expr.tidy_of_mem_initial {s : Statement} : ∀ e : Expr, e.tidy → s ∈ e.initial → s.tidy
  | .literal _, _, hs => by simp [initial] at hs
  | .name _, _, hs => by simp [initial] at hs
  | .unary _ e, h, hs => tidy_of_mem_initial e h hs
  | .binary _ l r, h, hs => by
      rw [tidy, Bool.and_eq_true] at h
      rw [initial, Statement.mem_merge] at hs
      exact hs.elim (tidy_of_mem_initial l h.1) (tidy_of_mem_initial r h.2)
  | .conditional c t f, h, hs => by
      simp only [tidy, Bool.and_eq_true] at h
      rw [initial, Statement.mem_merge, Statement.mem_merge] at hs
      rcases hs with (hs | hs) | hs
      · exact tidy_of_mem_initial c h.1.1 hs
      · exact tidy_of_mem_initial t h.1.2 hs
      · exact tidy_of_mem_initial f h.2 hs
  | .call f args, h, hs => by
      rw [tidy, Bool.and_eq_true] at h
      exact tidy_of_mem_initialAfter args (fun _ => tidy_of_mem_initial f h.1) h.2 hs
  | .member e _, h, hs => by
      rw [tidy, Bool.and_eq_true] at h
      exact tidy_of_mem_initial e h.1 hs
  | .index e key, h, hs => by
      rw [tidy, Bool.and_eq_true] at h
      rw [initial, Statement.mem_merge] at hs
      exact hs.elim (tidy_of_mem_initial e h.1) (tidy_of_mem_initial key h.2)
  | .array es, h, hs => tidy_of_mem_initialAfter es (by simp) h hs
  | .object entries, h, hs => tidy_of_mem_initialAfterEntries entries (by simp) h hs
  | .hoisted first e, h, hs => by
      rw [tidy, Bool.and_eq_true, Statement.tidyAll_iff] at h
      rw [initial, Statement.mem_merge] at hs
      exact hs.elim (tidy_of_mem_initial e h.2) (h.1 s)
termination_by structural e => e

theorem Expr.tidy_of_mem_initialAfter {s : Statement} : ∀ (es : List Expr)
    {seen : List Statement}, (∀ t ∈ seen, t.tidy) → tidyAll es → s ∈ initialAfter seen es → s.tidy
  | [], _, hseen, _, hs => hseen s hs
  | e :: es, seen, hseen, h, hs => by
      rw [tidyAll, Bool.and_eq_true] at h
      refine tidy_of_mem_initialAfter es (fun t ht => ?_) h.2 hs
      exact (Statement.mem_merge.1 ht).elim (hseen t) (tidy_of_mem_initial e h.1)
termination_by structural es => es

theorem Expr.tidy_of_mem_initialAfterEntries {s : Statement} : ∀ (entries : List (String × Expr))
    {seen : List Statement}, (∀ t ∈ seen, t.tidy) → tidyEntries entries →
      s ∈ initialAfterEntries seen entries → s.tidy
  | [], _, hseen, _, hs => hseen s hs
  | (_, e) :: entries, seen, hseen, h, hs => by
      rw [tidyEntries, Bool.and_eq_true] at h
      refine tidy_of_mem_initialAfterEntries entries (fun t ht => ?_) h.2 hs
      exact (Statement.mem_merge.1 ht).elim (hseen t) (tidy_of_mem_initial e h.1)
termination_by structural entries => entries

end

theorem Statement.tidy_of_mem_initial {s t : Statement} (h : s.tidy) (ht : t ∈ s.initial) :
    t.tidy := by
  match s, h, ht with
  | .expression e doc, h, ht =>
    rw [tidy, Bool.and_eq_true] at h
    exact e.tidy_of_mem_initial h.1 ht
  | .declaration name binding (some e) doc, h, ht =>
    simp only [tidy, Bool.and_eq_true] at h
    exact e.tidy_of_mem_initial h.1.2 ht

theorem Statement.tidy_of_mem_leaves {s t : Statement} (h : s.tidy) (ht : t ∈ s.leaves) :
    t.tidy := by
  induction s using dependencyInduction with
  | sequence parts ih =>
      rw [tidy, tidyAll_iff] at h
      rw [leaves, mem_leavesAll] at ht
      obtain ⟨part, hpart, ht⟩ := ht
      exact ih part hpart (h part hpart) ht
  | line s hs _ =>
      rw [leaves_eq_self hs, List.mem_singleton] at ht
      exact ht ▸ h

theorem Needs.tidy {first : List Statement} {t : Statement} (h : Needs first t)
    (hfirst : ∀ s ∈ first, s.tidy) : t.tidy := by
  induction h with
  | leaf hs ht => exact Statement.tidy_of_mem_leaves (hfirst _ hs) ht
  | deeper _ _ ih ih' => exact ih' fun _ hu => Statement.tidy_of_mem_initial (ih hfirst) hu

namespace Draft

/-- What is on the page or waits is needed by the statements `given`. -/
structure Within (d : Draft) (given : List Statement) : Prop where
  written : ∀ t ∈ d.page.written, Needs given t
  pending : ∀ t, Needs d.pending t → Needs given t

variable {d : Draft} {given : List Statement}

theorem Within.enqueue (h : d.Within given) {statements : List Statement}
    (hstatements : ∀ t, Needs statements t → Needs given t) :
    (d.enqueue statements).Within given where
  written := h.written
  pending t ht := by
    obtain ⟨s, hs, ht⟩ := ht.exists_mem
    rcases List.mem_append.1 hs with hs | hs
    · exact h.pending t (ht.of_mem hs)
    · exact hstatements t (ht.of_mem hs)

theorem Within.flush (h : d.Within given) : d.flush.Within given where
  written t ht := by
    rcases Page.mem_written_writeMissing (fun s _ => Page.mem_written_write s) ht with ht | ht
    · exact h.written t ht
    · exact h.pending t ht
  pending t ht := by
    obtain ⟨s, hs, -⟩ := ht.exists_mem
    exact absurd hs List.not_mem_nil

theorem Within.writeOn (h : d.Within given) {s : Statement}
    (hs : ∀ t, Needs [s] t → Needs given t) :
    Within { d with page := d.page.write s } given where
  written t ht := (Page.mem_written_write s d.page t ht).elim (h.written t) (hs t)
  pending := h.pending

mutual

theorem Within.append : ∀ (s : Statement) {d : Draft}, d.Within given →
    (∀ t, Needs [s] t → Needs given t) → (d.append s).Within given
  | .sequence parts, _, h, hs => Within.appendAll parts h fun t ht => hs t ht.sequence
  | .expression _ _, _, h, hs => h.flush.writeOn hs
  | .declaration _ _ (some _) _, _, h, hs => h.flush.writeOn hs
  | .declaration _ _ none _, _, h, hs => h.writeOn hs
termination_by structural s => s

theorem Within.appendAll : ∀ (statements : List Statement) {d : Draft}, d.Within given →
    (∀ t, Needs statements t → Needs given t) → (d.appendAll statements).Within given
  | [], _, h, _ => h
  | s :: statements, _, h, hs => by
      have hfirst := Within.append s h fun t ht => hs t (ht.mono (by simp))
      exact Within.appendAll statements hfirst fun t ht =>
        hs t (ht.mono (List.subset_cons_self s statements))
termination_by structural statements => statements

end

/-- One operation. -/
theorem Within.step (h : d.Within given) {st : Step} (hst : st.statements ⊆ given) :
    (d.step st).Within given := by
  have hneeds : ∀ t, Needs st.statements t → Needs given t := fun _ ht => ht.mono hst
  cases st with
  | enqueue statements => exact h.enqueue hneeds
  | flush => exact h.flush
  | fragment e => exact (h.enqueue hneeds).flush
  | append s => exact h.append s hneeds
  | indentMore => exact ⟨h.written, h.pending⟩
  | indentLess => exact ⟨h.written, h.pending⟩

theorem Within.run (h : d.Within given) {steps : List Step}
    (hsteps : steps.flatMap Step.statements ⊆ given) : (d.run steps).Within given := by
  induction steps generalizing d with
  | nil => exact h
  | cons st steps ih =>
      rw [List.flatMap_cons, List.append_subset] at hsteps
      exact ih (h.step hsteps.1) hsteps.2

end Draft

/-! ### Lines of a run -/

namespace Entry

/-- The line as it stands on the page, without its end. -/
def line (d : Dialect) (unit : String) (entry : Entry) : String :=
  String.join (List.replicate entry.level unit) ++ entry.statement.line d

theorem text_eq_line (d : Dialect) (unit : String) {entry : Entry} (h : entry.statement.tidy) :
    entry.text d unit = entry.line d unit ++ "\n" := by
  simp [text, line, Statement.doc?_eq_none h]

theorem isUnbroken_line (d : Dialect) {unit : String} (hunit : Settings.isIndent unit)
    {entry : Entry} (h : entry.statement.tidy) : isUnbroken (entry.line d unit).toList := by
  have hblank : isUnbroken unit.toList := by
    rw [isUnbroken_iff]
    refine ⟨?_, ?_, ?_, ?_⟩ <;> exact Settings.not_mem_of_isIndent hunit (by decide) (by decide)
  have hindent : isUnbroken (String.join (List.replicate entry.level unit)).toList :=
    isUnbroken_join fun s hs => List.eq_of_mem_replicate hs ▸ hblank
  rw [line, String.toList_append, isUnbroken_append, hindent, entry.statement.isUnbroken_line d h]
  rfl

end Entry

namespace Draft

/-- The statements on the finished page are those that were enqueued or appended
and those that they need. -/
theorem mem_written_finish_iff (dialect : Dialect) (unit : String) (steps : List Step)
    (t : Statement) :
    t ∈ (((blank dialect).indentedBy unit).run steps).flush.page.written ↔
      Needs (steps.flatMap Step.statements) t := by
  constructor
  · have hblank : ((blank dialect).indentedBy unit).Within (steps.flatMap Step.statements) :=
      ⟨by simp [blank, indentedBy, Page.blank], fun t ht => ht.mono (List.nil_subset _)⟩
    exact (hblank.run (List.Subset.refl _)).flush.written t
  · intro ht
    have hfinal := holds_finish dialect unit steps
    exact hfinal.mem_written_iff.2 (hfinal.mem_of_needs rfl ht)

/-- The finished text of tidy statements. Cut at line feeds, it has one line for
each statement that was written, in the order of writing: the indent of the level
that the operations had reached at that moment, and the statement with its end.
There is nothing else but the empty rest behind the last line feed, and there are
no other line breaks. The statements are those that were enqueued or appended and
those that they need. -/
theorem each_statement_is_one_line (dialect : Dialect) {unit : String}
    (hunit : Settings.isIndent unit) {steps : List Step}
    (hsteps : ∀ s ∈ steps.flatMap Step.statements, s.tidy) :
    let start := (blank dialect).indentedBy unit
    let text := ((start.run steps).finish).toList
    let entries := start.entries 0 (steps ++ [.flush])
    ('\r' ∉ text ∧ '\u2028' ∉ text ∧ '\u2029' ∉ text) ∧
      text.splitOn '\n' = (entries.map fun entry =>
        (String.join (List.replicate entry.level unit) ++
          entry.statement.line dialect).toList) ++ [[]] ∧
      (∀ entry ∈ entries, entry.statement.IsLine dialect (entry.statement.line dialect)) ∧
      entries.map Entry.statement = (start.run steps).flush.page.written.reverse ∧
      ∀ t, t ∈ entries.map Entry.statement ↔ Needs (steps.flatMap Step.statements) t := by
  intro start text entries
  have hfinal : (start.run steps).flush.Holds dialect unit _ entries _ :=
    holds_finish dialect unit steps
  have hneeded : ∀ t, t ∈ entries.map Entry.statement ↔
      Needs (steps.flatMap Step.statements) t := by
    intro t
    rw [← hfinal.mem_written_iff, mem_written_finish_iff]
  have htidy : ∀ entry ∈ entries, entry.statement.tidy := fun entry hentry =>
    ((hneeded entry.statement).1 (List.mem_map_of_mem hentry)).tidy hsteps
  -- Without documentation an entry is its line, so the text is made of ended lines.
  have htext : text = (entries.map fun entry => (entry.line dialect unit).toList).flatMap
      (· ++ ['\n']) := by
    have hentries : entries.map (Entry.text dialect unit) =
        entries.map fun entry => entry.line dialect unit ++ "\n" :=
      List.map_congr_left fun entry hentry => entry.text_eq_line dialect unit (htidy entry hentry)
    calc text
      _ = (String.join (entries.map (Entry.text dialect unit))).toList :=
        congrArg String.toList hfinal.text_eq
      _ = _ := by
        rw [hentries, String.toList_join, List.flatMap_map, List.flatMap_map]
        simp only [String.toList_append]
        rfl
  have hlines : ∀ line ∈ entries.map fun entry => (entry.line dialect unit).toList,
      isUnbroken line := by
    intro line hline
    obtain ⟨entry, hentry, rfl⟩ := List.mem_map.1 hline
    exact entry.isUnbroken_line dialect hunit (htidy entry hentry)
  refine ⟨?_, ?_, fun entry => hfinal.isLine, ?_, hneeded⟩
  · rw [htext]
    refine ⟨?_, ?_, ?_⟩ <;>
      exact fun hc => absurd (eq_feed_of_mem_endedLines hlines hc (by decide)) (by decide)
  · rw [htext]
    exact splitOn_endedLines hlines
  · rw [hfinal.written_eq, List.reverse_reverse]

/-- A declaration that was enqueued before the indent is written behind it, with
the call that brings it out, in both dialects. The line breaks in its text and in
the key stay inside the quotes. -/
theorem each_statement_is_one_line_waiting :
    let page : Statement := .declaration "page" .constant (some (.literal (.str "a\nb\u2028"))) none
    let entry : Statement := .declaration "x" .variable (some (.literal (.int 1))) none
    let call : Statement := .expression (.call (.name "app.run")
      [.hoisted [entry] (.name "x"), .object [("k\r", .name "page")]]) none
    let last : Statement := .declaration "last" .variable none none
    let steps : List Step := [.enqueue [page], .indentMore, .append call, .indentLess, .indentLess,
      .append last]
    let start (dialect : Dialect) := (blank dialect).indentedBy "\t"
    Settings.isIndent "\t" ∧ (∀ s ∈ steps.flatMap Step.statements, s.tidy) ∧
      (∀ dialect, (start dialect).entries 0 (steps ++ [.flush]) =
        [⟨1, page⟩, ⟨1, entry⟩, ⟨1, call⟩, ⟨0, last⟩]) ∧
      ((start .javascript).run steps).finish.toList.splitOn '\n' =
        ["\tconst page = 'a\\nb\\u2028';", "\tlet x = 1;",
          "\tapp.run(x, \x7b'k\\r': page\x7d);", "let last;", ""].map String.toList ∧
      ((start .python).run steps).finish.toList.splitOn '\n' =
        ["\tpage = 'a\\nb\\u2028'", "\tx = 1", "\tapp.run(x, \x7b'k\\r': page\x7d)", "last = None",
          ""].map String.toList := by
  intro page entry call last steps start
  have hunit : Settings.isIndent "\t" := by decide
  have hsteps : ∀ s ∈ steps.flatMap Step.statements, s.tidy := by decide
  have hentries : ∀ dialect, (start dialect).entries 0 (steps ++ [.flush]) =
      [⟨1, page⟩, ⟨1, entry⟩, ⟨1, call⟩, ⟨0, last⟩] := by
    intro dialect
    cases dialect <;> decide +kernel
  obtain ⟨-, hjavascript, -⟩ := each_statement_is_one_line .javascript hunit hsteps
  obtain ⟨-, hpython, -⟩ := each_statement_is_one_line .python hunit hsteps
  refine ⟨hunit, hsteps, hentries, hjavascript.trans ?_, hpython.trans ?_⟩
  · rw [hentries]
    decide
  · rw [hentries]
    decide

end Draft

end TargetCode
