import TargetCode.Expr.Handle
import TargetCode.Proofs.Literals

/-!
Which nodes are taken for string literals.

A node is recognised by its text alone, and texts such as `'a' + 'b'` also
start and end with a quote. Nevertheless no node other than a string literal
is recognised, whatever the literals in it hold, so turning a node into a
string hands back exactly the string literals and makes a new node of
anything else.
-/

namespace TargetCode

namespace Expr

/-- The node is a string literal. What is attached to it does not matter. -/
def IsStringLiteral (e : Expr) : Prop :=
  ∃ s, e.bare = .literal (.str s)

theorem isStringLiteral_iff (e : Expr) : e.IsStringLiteral ↔ ∃ s, e.string? = some s := by
  unfold IsStringLiteral string?
  split
  · next s h => simp [h]
  · next h => simpa using h

/-- The text of a node gives away whether it is a string literal. -/
theorem rendersQuoted_iff {e : Expr} (h : e.plainNames) (d : Dialect) :
    e.rendersQuoted d = true ↔ e.IsStringLiteral := by
  have hspelled := e.spelled_render d h
  rw [isStringLiteral_iff, rendersQuoted]
  generalize e.string? = value at hspelled
  generalize e.render d = text at hspelled
  cases hspelled with
  | quoted s => simp [Text.isLiteral_quote]
  | other hother => simp [hother]

/-- There is nothing to build for a string literal. What is built for anything
else is not a string literal in the eyes of either dialect. -/
theorem coercion?_cases {e : Expr} (h : e.plainNames) (d : Dialect) :
    (e.IsStringLiteral ∧ e.coercion? d = none) ∨
      (¬e.IsStringLiteral ∧
        ∃ coerced, e.coercion? d = some coerced ∧ ∀ d', coerced.rendersQuoted d' = false) := by
  by_cases hliteral : e.IsStringLiteral
  · exact .inl ⟨hliteral, if_pos ((rendersQuoted_iff h d).2 hliteral)⟩
  have hquoted : ¬e.rendersQuoted d = true := mt (rendersQuoted_iff h d).1 hliteral
  refine .inr ⟨hliteral, ?_⟩
  cases d with
  | javascript =>
      refine ⟨.binary .add (string "") e, if_neg hquoted, fun d' => ?_⟩
      rw [← Bool.not_eq_true, rendersQuoted_iff (by simp [string, plainNames, h])]
      simp [IsStringLiteral, bare]
  | python =>
      have hnames : (e.passedTo "str").plainNames := by
        simp [passedTo, plainNames, plainNamesAll, h, Text.startsPlain]
      refine ⟨e.passedTo "str", if_neg hquoted, fun d' => ?_⟩
      rw [← Bool.not_eq_true, rendersQuoted_iff hnames]
      simp [IsStringLiteral, passedTo, bare]

end Expr

namespace Handle

/-- A node is taken for a string literal exactly if it is one. Turning a node
into a string then hands back the very node, and for every other node it makes
a new one that is not taken for a string literal in any dialect. Marks in use
are smaller than the next one. -/
theorem asString_hands_back_literals_only (d : Dialect) (h : Handle) (next : Nat)
    (hnames : h.expr.plainNames) (hmark : h.mark < next) :
    let made := ((h.asString d).run next).1
    (h.expr.rendersQuoted d = true ↔ h.expr.IsStringLiteral) ∧
      (made.identical h = true ↔ h.expr.IsStringLiteral) ∧
      (h.expr.IsStringLiteral → made = h) ∧
      (¬h.expr.IsStringLiteral → ∀ d', made.expr.rendersQuoted d' = false) := by
  intro made
  have hquoted := Expr.rendersQuoted_iff hnames d
  -- Whether the node is new follows from what was built.
  rcases Expr.coercion?_cases hnames d with ⟨hliteral, hnone⟩ | ⟨hliteral, coerced, hsome, hother⟩
  · have hmade : made = h := by
      simp only [made, asString, hnone]
      rfl
    simp [hquoted, hliteral, hmade, identical]
  · have hmade : made = ⟨next, coerced⟩ := by
      simp only [made, asString, hsome]
      rfl
    have hfresh : next ≠ h.mark := Nat.ne_of_gt hmark
    simp [hquoted, hliteral, hmade, identical, hfresh, hother]

/-- A conditional between two literals, with quotes and a backslash at the
places where the scanner could be misled. -/
theorem asString_hands_back_literals_only_conditional :
    let e : Expr := .conditional (.literal (.str "\\")) (.name "x.y") (.literal (.str "it's"))
    let made := ((Handle.asString .javascript ⟨0, e⟩).run 1).1
    e.render .javascript = "'\\\\' ? x.y : 'it\\'s'" ∧ e.plainNames ∧
      made.identical ⟨0, e⟩ = false ∧
      made.expr.render .javascript = "'' + ('\\\\' ? x.y : 'it\\'s')" ∧
      ∀ d, made.expr.rendersQuoted d = false := by
  intro e made
  have hnames : e.plainNames := by decide
  have hliteral : ¬e.IsStringLiteral := by
    rintro ⟨s, hs⟩
    simp [e, Expr.bare] at hs
  obtain ⟨-, hidentical, -, hother⟩ :=
    asString_hands_back_literals_only .javascript ⟨0, e⟩ 1 hnames (by decide)
  exact ⟨by decide, hnames, by simpa [hliteral] using hidentical, by decide, hother hliteral⟩

end Handle

end TargetCode
