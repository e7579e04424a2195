import TargetCode.Proofs.Rendering
import TargetCode.TextTarget

/-!
Which paths of helper functions the settings may name.

A path is cut at its dots and every part has to be an identifier, so that a
path with an empty part is refused wherever its dots stand. One set of
characters serves both dialects, and it has the dollar sign in it. JavaScript
takes it for a letter, but Python has no use for it: settings with a dollar sign
in the path for Python are accepted, and no reference to a helper function that
is made with them is a name in Python. By its characters no other path goes
wrong. Reserved words are not looked at here, nor by the check.
-/

namespace TargetCode

namespace Dialect

/-- The ASCII characters that an identifier may start with. -/
def StartsName (d : Dialect) (c : Char) : Prop :=
  'A' ≤ c ∧ c ≤ 'Z' ∨ 'a' ≤ c ∧ c ≤ 'z' ∨ c = '_' ∨ c = '$' ∧ d = .javascript

/-- The ASCII characters that may follow in an identifier. -/
def ContinuesName (d : Dialect) (c : Char) : Prop :=
  d.StartsName c ∨ '0' ≤ c ∧ c ≤ '9'

instance (d : Dialect) (c : Char) : Decidable (d.StartsName c) :=
  inferInstanceAs (Decidable (_ ∨ _))

instance (d : Dialect) (c : Char) : Decidable (d.ContinuesName c) :=
  inferInstanceAs (Decidable (_ ∨ _))

inductive Identifier (d : Dialect) : List Char → Prop
  | intro {c : Char} {rest : List Char} (hc : d.StartsName c)
      (hrest : ∀ x ∈ rest, d.ContinuesName x) : Identifier d (c :: rest)

/-- Identifiers joined by single dots. -/
inductive Path (d : Dialect) : List Char → Prop
  | single {w : List Char} (hw : d.Identifier w) : Path d w
  | dot {w rest : List Char} (hw : d.Identifier w) (hrest : Path d rest) :
      Path d (w ++ '.' :: rest)

variable {d : Dialect} {c : Char} {w cs : List Char}

theorem Path.append_dot (h : d.Path cs) (hw : d.Identifier w) : d.Path (cs ++ '.' :: w) := by
  induction h with
  | single hv => exact .dot hv (.single hw)
  | dot hv _ ih =>
      rw [List.append_assoc, List.cons_append]
      exact .dot hv ih

theorem path_intercalate {parts : List (List Char)} (hne : parts ≠ [])
    (h : ∀ w ∈ parts, d.Identifier w) : d.Path (List.intercalate ['.'] parts) := by
  induction parts with
  | nil => contradiction
  | cons w parts ih =>
      obtain ⟨hw, hparts⟩ := List.forall_mem_cons.1 h
      cases parts with
      | nil =>
          rw [List.intercalate_singleton]
          exact .single hw
      | cons v parts =>
          rw [List.intercalate_cons_cons, List.append_assoc]
          exact .dot hw (ih (by simp) hparts)

theorem Identifier.continuesName (h : d.Identifier w) (hc : c ∈ w) : d.ContinuesName c := by
  cases h with
  | intro hstart hrest =>
      rcases List.mem_cons.1 hc with rfl | hc
      · exact .inl hstart
      · exact hrest c hc

theorem Identifier.dot_not_mem (h : d.Identifier w) : '.' ∉ w := by
  intro hdot
  exact absurd (h.continuesName hdot) (by cases d <;> decide)

theorem startsName_python_iff :
    Dialect.python.StartsName c ↔ Dialect.javascript.StartsName c ∧ c ≠ '$' := by
  by_cases hc : c = '$'
  · subst c
    simp [StartsName, Char.le_def]
  · simp [StartsName, hc]

theorem continuesName_python_iff :
    Dialect.python.ContinuesName c ↔ Dialect.javascript.ContinuesName c ∧ c ≠ '$' := by
  rw [ContinuesName, ContinuesName, startsName_python_iff, or_and_right]
  refine or_congr_right (iff_self_and.2 ?_)
  rintro hdigit rfl
  exact absurd hdigit (by decide)

theorem identifier_python_iff :
    Dialect.python.Identifier w ↔ Dialect.javascript.Identifier w ∧ '$' ∉ w := by
  constructor
  · rintro ⟨hc, hrest⟩
    obtain ⟨hc, hne⟩ := startsName_python_iff.1 hc
    refine ⟨.intro hc fun x hx => (continuesName_python_iff.1 (hrest x hx)).1, ?_⟩
    rw [List.mem_cons, not_or]
    exact ⟨hne.symm, fun hx => (continuesName_python_iff.1 (hrest _ hx)).2 rfl⟩
  · rintro ⟨⟨hc, hrest⟩, hdollar⟩
    rw [List.mem_cons, not_or] at hdollar
    refine .intro (startsName_python_iff.2 ⟨hc, hdollar.1 ∘ Eq.symm⟩) fun x hx => ?_
    refine continuesName_python_iff.2 ⟨hrest x hx, ?_⟩
    rintro rfl
    exact hdollar.2 hx

/-- A path in Python is one in JavaScript that has no dollar sign. -/
theorem path_python_iff : Dialect.python.Path cs ↔ Dialect.javascript.Path cs ∧ '$' ∉ cs := by
  constructor
  · intro h
    induction h with
    | single hw =>
        obtain ⟨hw, hdollar⟩ := identifier_python_iff.1 hw
        exact ⟨.single hw, hdollar⟩
    | dot hw _ ih =>
        obtain ⟨hw, hdollar⟩ := identifier_python_iff.1 hw
        exact ⟨.dot hw ih.1, by simp [hdollar, ih.2]⟩
  · rintro ⟨h, hdollar⟩
    induction h with
    | single hw => exact .single (identifier_python_iff.2 ⟨hw, hdollar⟩)
    | dot hw _ ih =>
        simp only [List.mem_append, List.mem_cons, not_or] at hdollar
        exact .dot (identifier_python_iff.2 ⟨hw, hdollar.1⟩) (ih hdollar.2.2)

theorem path_iff_of_javascript (h : Dialect.javascript.Path cs) :
    d.Path cs ↔ (d = .python → '$' ∉ cs) := by
  cases d with
  | javascript => exact iff_of_true h (by simp)
  | python => simp [path_python_iff, h]

end Dialect

namespace Settings

/-! ### The check -/

theorem startsIdentifier_iff (c : Char) :
    startsIdentifier c = true ↔ Dialect.javascript.StartsName c := by
  have halpha : c.isAlpha =
      (decide ('A' ≤ c ∧ c ≤ 'Z') || (decide ('a' ≤ c) && decide (c ≤ 'z'))) := rfl
  simp only [startsIdentifier, Dialect.StartsName, halpha, Bool.or_eq_true, Bool.and_eq_true,
    decide_eq_true_eq, or_assoc, and_true]

theorem continuesIdentifier_iff (c : Char) :
    continuesIdentifier c = true ↔ Dialect.javascript.ContinuesName c := by
  rw [Dialect.ContinuesName, ← startsIdentifier_iff]
  simp only [continuesIdentifier, startsIdentifier, Char.isAlphanum, Char.isDigit, Char.le_def,
    Bool.or_eq_true, Bool.and_eq_true, decide_eq_true_eq, ge_iff_le]
  tauto

theorem isIdentifier_iff (w : List Char) :
    isIdentifier w = true ↔ Dialect.javascript.Identifier w := by
  cases w with
  | nil => exact iff_of_false (by simp [isIdentifier]) (by rintro ⟨⟩)
  | cons c rest =>
      simp only [isIdentifier, Bool.and_eq_true, List.all_eq_true, startsIdentifier_iff,
        continuesIdentifier_iff]
      constructor
      · rintro ⟨hc, hrest⟩
        exact .intro hc hrest
      · rintro ⟨hc, hrest⟩
        exact ⟨hc, hrest⟩

theorem splitDots_of_not_mem {w : List Char} (h : '.' ∉ w) : splitDots w = [w] := by
  induction w with
  | nil => rfl
  | cons c w ih =>
      rw [List.mem_cons, not_or] at h
      rw [splitDots.eq_def]
      split <;> simp_all

theorem splitDots_append_dot {w : List Char} (h : '.' ∉ w) (rest : List Char) :
    splitDots (w ++ '.' :: rest) = w :: splitDots rest := by
  induction w with
  | nil => rfl
  | cons c w ih =>
      rw [List.mem_cons, not_or] at h
      rw [List.cons_append, splitDots.eq_def]
      split <;> simp_all

/-- The parts between dots are identifiers exactly if the text is made of
identifiers and dots in turn. -/
theorem isPath_iff (s : String) : isPath s = true ↔ Dialect.javascript.Path s.toList := by
  rw [isPath, List.all_eq_true]
  constructor
  · intro h
    rw [← intercalate_splitDots s.toList]
    exact Dialect.path_intercalate (splitDots_ne_nil _) fun w hw => (isIdentifier_iff w).1 (h w hw)
  · generalize s.toList = cs
    intro h
    induction h with
    | single hw =>
        rw [splitDots_of_not_mem hw.dot_not_mem, List.forall_mem_singleton]
        exact (isIdentifier_iff _).2 hw
    | dot hw _ ih =>
        rw [splitDots_append_dot hw.dot_not_mem, List.forall_mem_cons]
        exact ⟨(isIdentifier_iff _).2 hw, ih⟩

theorem isIndent_iff (s : String) : isIndent s = true ↔ ∀ c ∈ s.toList, c = ' ' ∨ c = '\t' := by
  simp [isIndent]

theorem fault?_eq_none_iff (settings : Settings) : settings.fault? = none ↔
    isPath settings.javascript.helpers ∧ isPath settings.python.helpers ∧
      isIndent settings.javascript.indent ∧ isIndent settings.python.indent := by
  rw [fault?]
  split_ifs <;> simp_all

theorem exists_validate_eq_ok_iff (settings : Settings) :
    (∃ accepted, settings.validate = .ok accepted) ↔ settings.fault? = none := by
  rw [validate]
  cases settings.fault? <;> simp

theorem toList_render_helper (target : TextTarget) (name : String) :
    ((target.helper name).render target.dialect).toList =
      target.helpers.toList ++ '.' :: name.toList := by
  simp [TextTarget.helper, TextTarget.helperPath, Expr.render]

/-- A helper function whose name is an identifier is referred to by a path
exactly if it is found under a path. -/
theorem path_helper_iff (target : TextTarget)
    (hhelpers : Dialect.javascript.Path target.helpers.toList) {name : String}
    (hname : target.dialect.Identifier name.toList) :
    target.dialect.Path ((target.helper name).render target.dialect).toList ↔
      target.dialect.Path target.helpers.toList := by
  rw [toList_render_helper]
  refine ⟨fun h => ?_, fun h => h.append_dot hname⟩
  -- The name adds no dollar sign, but it cannot take one away either.
  rw [Dialect.path_iff_of_javascript hhelpers]
  intro hpython hdollar
  rw [hpython, Dialect.path_python_iff] at h
  exact h.2 (List.mem_append_left _ hdollar)

/-- Settings are accepted if the paths for both dialects are paths in JavaScript
and the indents are blank. Such a path is one in its own dialect unless it has a
dollar sign and is meant for Python. If it is one, so is every reference to a
helper function whose name is an identifier of the dialect, and otherwise none
of them is. -/
theorem helper_paths_are_checked_as_javascript (settings : Settings) :
    ((∃ accepted, settings.validate = .ok accepted) ↔
      Dialect.javascript.Path settings.javascript.helpers.toList ∧
      Dialect.javascript.Path settings.python.helpers.toList ∧
      (∀ c ∈ settings.javascript.indent.toList, c = ' ' ∨ c = '\t') ∧
      ∀ c ∈ settings.python.indent.toList, c = ' ' ∨ c = '\t') ∧
    ((∃ accepted, settings.validate = .ok accepted) → ∀ d : Dialect,
      let path := (settings.sectionFor d).helpers.toList
      (d.Path path ↔ (d = .python → '$' ∉ path)) ∧
      ∀ name : String, d.Identifier name.toList →
        (d.Path (((TextTarget.ofDialect d settings).helper name).render d).toList ↔
          d.Path path)) := by
  have haccepted := exists_validate_eq_ok_iff settings
  rw [fault?_eq_none_iff, isPath_iff, isPath_iff, isIndent_iff, isIndent_iff] at haccepted
  refine ⟨haccepted, fun h d => ?_⟩
  obtain ⟨hjavascript, hpython, -⟩ := haccepted.1 h
  have hpath : Dialect.javascript.Path (settings.sectionFor d).helpers.toList := by
    cases d with
    | javascript => exact hjavascript
    | python => exact hpython
  exact ⟨Dialect.path_iff_of_javascript hpath,
    fun name hname => path_helper_iff (.ofDialect d settings) hpath hname⟩

/-- The path `a$b` is accepted for Python, and it is in every reference although
it is no path in Python. -/
theorem dollar_sign_accepted_for_python :
    let settings : Settings := ⟨.default .javascript, ⟨"a$b", "    "⟩⟩
    settings.validate = .ok settings ∧
      ¬Dialect.python.Path settings.python.helpers.toList ∧
      Dialect.python.Identifier "flat".toList ∧
      ((TextTarget.ofDialect .python settings).helper "flat").render .python = "a$b.flat" ∧
      ¬Dialect.python.Path "a$b.flat".toList := by
  have hdollar {cs : List Char} (h : '$' ∈ cs) : ¬Dialect.python.Path cs := fun hpath =>
    (Dialect.path_python_iff.1 hpath).2 h
  have hflat : Dialect.python.Identifier "flat".toList :=
    Dialect.identifier_python_iff.2 ⟨(isIdentifier_iff _).1 rfl, by decide⟩
  exact ⟨rfl, hdollar (by decide), hflat, rfl, hdollar (by decide)⟩

end Settings

end TargetCode
