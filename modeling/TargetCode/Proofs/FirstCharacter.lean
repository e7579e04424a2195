import TargetCode.Expr.Render

/-!
What the text of an expression starts with.

Many expressions start with an operand, which stands in parentheses or not.
Along these first operands one comes to a parenthesis, or to a part that
starts with no operand: a literal, a name, an operator in front of its
operand, an array or an object. The text starts with that part, and the first
character of the part is known.
-/

namespace TargetCode

/-- The text is not empty, and its first character is one of `p`. -/
def FirstChar (p : Char → Prop) (text : List Char) : Prop :=
  ∃ c cs, text = c :: cs ∧ p c

section FirstChar

variable {p q : Char → Prop} {text : List Char}

theorem firstChar_cons {c : Char} {cs : List Char} (h : p c) : FirstChar p (c :: cs) :=
  ⟨c, cs, rfl, h⟩

theorem FirstChar.append (h : FirstChar p text) (more : List Char) :
    FirstChar p (text ++ more) := by
  obtain ⟨c, cs, rfl, hc⟩ := h
  exact firstChar_cons hc

theorem FirstChar.mono (h : FirstChar p text) (hpq : ∀ c, p c → q c) : FirstChar q text := by
  obtain ⟨c, cs, rfl, hc⟩ := h
  exact firstChar_cons (hpq c hc)

end FirstChar

/-! ### Literals -/

/-- A character that a literal other than a string can start with. -/
def StartsValue (c : Char) : Prop :=
  c.isAlphanum ∨ c = '-'

instance (c : Char) : Decidable (StartsValue c) :=
  inferInstanceAs (Decidable (_ ∨ _))

namespace Decimal

theorem exists_natural_eq_cons (n : Nat) : ∃ c cs, (natural n).toList = c :: cs ∧
    c.isDigit ∧ ∀ c ∈ cs, c.isDigit := by
  have hdigit : ∀ c ∈ Nat.toDigits 10 n, c.isDigit :=
    fun c hc => Nat.isDigit_of_mem_toDigits (by decide) (by decide) hc
  obtain ⟨c, cs, hdigits⟩ := List.exists_cons_of_ne_nil (Nat.toDigits_ne_nil (n := n) (b := 10))
  rw [hdigits] at hdigit
  rw [natural, Nat.toList_repr]
  exact ⟨c, cs, hdigits, List.forall_mem_cons.1 hdigit⟩

theorem startsValue_of_isDigit {c : Char} (h : c.isDigit) : StartsValue c :=
  .inl (by simp [Char.isAlphanum, h])

theorem firstChar_integer (i : Int) : FirstChar StartsValue (integer i).toList := by
  unfold integer
  split
  · rw [String.toList_append]
    exact firstChar_cons (c := '-') (.inr rfl)
  · obtain ⟨c, cs, hdigits, hc, -⟩ := exists_natural_eq_cons i.natAbs
    exact ⟨c, cs, hdigits, startsValue_of_isDigit hc⟩

theorem firstChar_write (layout : Layout) (x : Decimal) :
    FirstChar StartsValue (layout.write x).toList := by
  obtain ⟨c, cs, hdigits, hc, -⟩ := exists_natural_eq_cons x.significand
  rw [Layout.write, String.toList_ofList, hdigits]
  split
  · unfold positional
    split
    · exact firstChar_cons (c := '0') (.inl (by decide))
    · exact firstChar_cons (startsValue_of_isDigit hc)
  · exact firstChar_cons (startsValue_of_isDigit hc)

end Decimal

theorem firstChar_finiteText (x : Binary64) : FirstChar StartsValue x.finiteText.toList := by
  unfold Binary64.finiteText
  split
  · rw [String.toList_append]
    exact firstChar_cons (c := '-') (.inr rfl)
  · rw [String.empty_append]
    exact Decimal.firstChar_write _ _

namespace Dialect

theorem firstChar_float (d : Dialect) (x : Binary64) :
    FirstChar StartsValue (d.float x).toList := by
  unfold float
  split
  · cases d <;> exact firstChar_cons (.inl (by decide))
  · split
    · split
      · rw [String.toList_append]
        exact firstChar_cons (c := '-') (.inr rfl)
      · rw [String.empty_append]
        cases d <;> exact firstChar_cons (.inl (by decide))
    · exact firstChar_finiteText x

theorem firstChar_literal (d : Dialect) {v : Literal} (h : ∀ s, v ≠ .str s) :
    FirstChar StartsValue (d.literal v).toList := by
  cases v with
  | str s => exact absurd rfl (h s)
  | int i => exact Decimal.firstChar_integer i
  | float x => exact d.firstChar_float x
  | bool b => cases d <;> cases b <;> exact firstChar_cons (.inl (by decide))
  | null => cases d <;> exact firstChar_cons (.inl (by decide))

theorem firstChar_unarySymbol (d : Dialect) (o : UnaryOperator) :
    FirstChar (· ∈ ['!', '-', 'n']) (d.unarySymbol o).toList := by
  cases d <;> cases o <;> exact firstChar_cons (by decide)

end Dialect

namespace Expr

/-! ### The first operand -/

/-- The operand that the text of an expression starts with, and whether it
stands in parentheses. -/
def leading? (d : Dialect) : Expr → Option (Bool × Expr)
  | .binary o l _ =>
    some ((d.binaryLevel o).needsParens (d.associativity o) (l.level d) .left, l)
  | .conditional c t _ =>
    let first := match d with
      | .javascript => c
      | .python => t
    some (first.needsParensInConditional d .left, first)
  | .call f _ => some (f.needsParensAsTarget d, f)
  | .member e _ => some (e.needsParensAsTarget d, e)
  | .index e _ => some (e.needsParensAsTarget d, e)
  | .hoisted _ e => some (false, e)
  | .literal _ | .name _ | .unary _ _ | .array _ | .object _ => none

theorem sizeOf_lt_of_leading? {d : Dialect} {e a : Expr} {wrap : Bool}
    (h : e.leading? d = some (wrap, a)) : sizeOf a < sizeOf e := by
  cases e <;> cases d <;>
    simp only [leading?, Option.some.injEq, Prod.mk.injEq, reduceCtorEq] at h <;>
    obtain ⟨-, rfl⟩ := h <;> simp <;> omega

/-- The part that comes first in the text, unless it is a parenthesis. -/
def opening? (d : Dialect) (e : Expr) : Option Expr :=
  match _h : e.leading? d with
  | none => some e
  | some (wrap, a) => if wrap then none else a.opening? d
termination_by e
decreasing_by exact sizeOf_lt_of_leading? _h

section

variable {d : Dialect} {e a part : Expr} {wrap : Bool}

/-- What holds of an expression and passes to first operands holds of the part
that comes first. -/
theorem opening?_inherits {P : Expr → Prop}
    (hP : ∀ {e wrap a}, e.leading? d = some (wrap, a) → P e → P a)
    (h : e.opening? d = some part) (he : P e) : P part := by
  fun_induction opening? d e with
  | case1 e hleaf =>
      obtain rfl := Option.some.inj h
      exact he
  | case2 e a hleading => contradiction
  | case3 e wrap a hleading hwrap ih => exact ih h (hP hleading he)

theorem leading?_of_opening? (h : e.opening? d = some part) : part.leading? d = none := by
  fun_induction opening? d e with
  | case1 e hleaf =>
      obtain rfl := Option.some.inj h
      exact hleaf
  | case2 e a hleading => contradiction
  | case3 e wrap a hleading hwrap ih => exact ih h

theorem bare_of_leading?_eq_none (h : e.leading? d = none) : e.bare = e := by
  cases e <;> first | rfl | simp [leading?] at h

/-- A first operand has text behind it, except that statements may be attached
to it. -/
theorem render_of_leading? (h : e.leading? d = some (wrap, a)) :
    (wrap = false ∧ e.render d = a.render d ∧ e.bare = a.bare) ∨
      e.bare = e ∧ ∃ rest, rest ≠ "" ∧ e.render d = enclose wrap (a.render d) ++ rest := by
  cases e <;> cases d <;>
    simp only [leading?, Option.some.injEq, Prod.mk.injEq, reduceCtorEq] at h <;>
    obtain ⟨rfl, rfl⟩ := h
  case hoisted.javascript | hoisted.python => exact .inl ⟨rfl, rfl, rfl⟩
  all_goals
    refine .inr ⟨rfl, ?_⟩
    simp only [render, String.append_assoc]
    exact ⟨_, by simp, rfl⟩

/-- Attached statements do not matter for what comes first. -/
theorem opening?_eq_bare (h : e.bare.leading? d = none) : e.opening? d = some e.bare := by
  fun_induction opening? d e with
  | case1 e hleaf => rw [bare_of_leading?_eq_none hleaf]
  | case2 e a hleading =>
      obtain ⟨hwrap, -⟩ | ⟨hbare, -⟩ := render_of_leading? hleading
      · contradiction
      · simp [hbare, hleading] at h
  | case3 e wrap a hleading hwrap ih =>
      obtain ⟨-, -, hbare⟩ | ⟨hbare, -⟩ := render_of_leading? hleading
      · rw [hbare] at h ⊢
        exact ih h
      · simp [hbare, hleading] at h

end

/-- The text of the part that comes first. -/
def openingText (d : Dialect) : Option Expr → String
  | none => "("
  | some part => part.render d

/-- The text starts with the part that comes first. It goes on behind it
unless the expression is nothing but that part. -/
theorem exists_render_eq (d : Dialect) (e : Expr) :
    ∃ rest, e.render d = openingText d (e.opening? d) ++ rest ∧
      (rest = "" ↔ e.opening? d = some e.bare) := by
  fun_induction opening? d e with
  | case1 e hleaf =>
      exact ⟨"", String.append_empty.symm, by simp [bare_of_leading?_eq_none hleaf]⟩
  | case2 e a hleading =>
      obtain ⟨hwrap, -⟩ | ⟨-, rest, hrest, htext⟩ := render_of_leading? hleading
      · contradiction
      · refine ⟨a.render d ++ ")" ++ rest, ?_, by simp⟩
        simp only [htext, enclose, if_true, openingText, String.append_assoc]
  | case3 e wrap a hleading hwrap ih =>
      obtain ⟨more, hmore, hiff⟩ := ih
      obtain ⟨-, htext, hbare⟩ | ⟨hbare, rest, hrest, htext⟩ := render_of_leading? hleading
      · exact ⟨more, by rw [htext, hmore], by rw [hbare, hiff]⟩
      · refine ⟨more ++ rest, ?_, iff_of_false (by simp [hrest]) ?_⟩
        · rw [htext, enclose, if_neg hwrap, hmore, String.append_assoc]
        · -- The part starts with no operand, but `e` does.
          rw [hbare]
          intro hself
          simp [leading?_of_opening? hself] at hleading

theorem firstChar_enclose {p : Char → Prop} {text : String} (h : FirstChar p text.toList)
    (hp : p '(') (wrap : Bool) : FirstChar p (enclose wrap text).toList := by
  cases wrap with
  | false => exact h
  | true =>
      simp only [enclose, if_true, String.toList_append, List.append_assoc]
      exact firstChar_cons (c := '(') hp

/-- The characters that the part that comes first can start with, if names
start with those of `p`. -/
def Starts (p : Char → Prop) : Option Expr → Char → Prop
  | none, c => c = '('
  | some (.literal (.str _)), c => c = '\''
  | some (.literal _), c => StartsValue c
  | some (.name _), c => p c
  | some (.unary _ _), c => c ∈ ['!', '-', 'n']
  | some (.array _), c => c = '['
  | some (.object _), c => c = '\x7b'
  | some _, _ => False

section

variable {p : Char → Prop} {d : Dialect} {e : Expr}
  (hname : ∀ path, e.opening? d = some (.name path) → FirstChar p path.toList)
include hname

theorem firstChar_openingText :
    FirstChar (Starts p (e.opening? d)) (openingText d (e.opening? d)).toList := by
  cases hpart : e.opening? d with
  | none => exact ⟨'(', [], by simp [openingText], rfl⟩
  | some part =>
      have hleaf := leading?_of_opening? hpart
      match part with
      | .literal (.str s) =>
          simp only [openingText, render, Dialect.literal, Text.quote, String.toList_ofList]
          exact firstChar_cons rfl
      | .literal (.int i) => exact d.firstChar_literal (by simp)
      | .literal (.float x) => exact d.firstChar_literal (by simp)
      | .literal (.bool b) => exact d.firstChar_literal (by simp)
      | .literal .null => exact d.firstChar_literal (by simp)
      | .name path => exact hname path hpart
      | .unary o e =>
          simp only [openingText, render, unaryText]
          split
          · rw [String.append_assoc, String.toList_append]
            exact (d.firstChar_unarySymbol o).append _
          · rw [String.toList_append]
            exact (d.firstChar_unarySymbol o).append _
      | .array es =>
          simp only [openingText, render, String.toList_append, List.append_assoc]
          exact firstChar_cons rfl
      | .object entries =>
          simp only [openingText, render, String.toList_append, List.append_assoc]
          exact firstChar_cons rfl

theorem firstChar_render : FirstChar (Starts p (e.opening? d)) (e.render d).toList := by
  obtain ⟨rest, htext, -⟩ := e.exists_render_eq d
  rw [htext, String.toList_append]
  exact (firstChar_openingText hname).append _

end

end Expr

end TargetCode
