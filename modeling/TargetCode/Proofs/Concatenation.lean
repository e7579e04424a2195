import TargetCode.Proofs.Attachments

/-!
The text of operands that are joined by plus signs.

The operands become a chain that is nested to the left, and its text is put
together from the outside in. Every link of the chain is a sum itself, so it
needs no parentheses as the left operand of the next one. What is left is a flat
text: the operands one after the other, where only the first one may be a sum
without parentheses.
-/

namespace TargetCode

namespace Level

/-- On the left of a plus sign only weaker operands need parentheses. -/
theorem needsParens_left_of_add (d : Dialect) (operand : Level) :
    (d.binaryLevel .add).needsParens (d.associativity .add) operand .left =
      decide (operand.rank < additive.rank) := by
  cases d <;> cases operand <;> rfl

/-- On its right equally strong ones need them too. -/
theorem needsParens_right_of_add (d : Dialect) (operand : Level) :
    (d.binaryLevel .add).needsParens (d.associativity .add) operand .right =
      decide (operand.rank ≤ additive.rank) := by
  cases d <;> cases operand <;> rfl

end Level

namespace Expr

/-- A plus sign and the operand behind it. -/
def addend (d : Dialect) (e : Expr) : String :=
  " + " ++ if (e.level d).rank ≤ Level.additive.rank then "(" ++ e.render d ++ ")" else e.render d

theorem render_add (d : Dialect) (left right : Expr) :
    (Expr.binary .add left right).render d =
      (if (left.level d).rank < Level.additive.rank then "(" ++ left.render d ++ ")"
        else left.render d) ++ right.addend d := by
  have hsymbol : " " ++ d.binarySymbol .add ++ " " = " + " := by cases d <;> rfl
  simp only [render, Level.needsParens_left_of_add, Level.needsParens_right_of_add, enclose,
    decide_eq_true_eq, addend, ← hsymbol, String.append_assoc]

theorem level_add (d : Dialect) (left right : Expr) :
    (Expr.binary .add left right).level d = .additive := by
  cases d <;> rfl

theorem level_foldl_add {d : Dialect} {sum : Expr} (h : sum.level d = .additive)
    (es : List Expr) : (es.foldl (.binary .add) sum).level d = .additive := by
  induction es generalizing sum with
  | nil => exact h
  | cons e es ih => exact ih (level_add d sum e)

/-- A chain goes on behind the text of the sum that it starts with. -/
theorem render_foldl_add {d : Dialect} {sum : Expr} (h : sum.level d = .additive)
    (es : List Expr) :
    (es.foldl (.binary .add) sum).render d = sum.render d ++ String.join (es.map (addend d)) := by
  induction es generalizing sum with
  | nil => simp
  | cons e es ih =>
      -- The sum so far is the left operand of the next link, and stays bare there.
      have hbare : ¬(sum.level d).rank < Level.additive.rank := by simp [h]
      rw [List.foldl_cons, ih (level_add d sum e), render_add, if_neg hbare, List.map_cons,
        String.join_cons, String.append_assoc]

/-- Two or more operands joined by plus signs. The first is in parentheses
exactly if it is weaker than a sum, every later one exactly if it is not
stronger than a sum, and there are no others. The whole is a sum, and depends on
what its operands depend on, each statement at its first place. -/
theorem concat_is_flat_sum (d : Dialect) (first second : Expr) (rest : List Expr) :
    let whole := concat (first :: second :: rest)
    whole.render d =
        (if (first.level d).rank < Level.additive.rank then "(" ++ first.render d ++ ")"
          else first.render d) ++
        String.join ((second :: rest).map fun e =>
          " + " ++
            if (e.level d).rank ≤ Level.additive.rank then "(" ++ e.render d ++ ")"
            else e.render d) ∧
      whole.level d = .additive ∧
      whole.initial = ((first :: second :: rest).flatMap initial).eraseDups := by
  intro whole
  have hsum := level_add d first second
  refine ⟨?_, level_foldl_add hsum rest, initial_concat _⟩
  calc whole.render d
    _ = (Expr.binary .add first second).render d ++ String.join (rest.map (addend d)) :=
      render_foldl_add hsum rest
    _ = _ := by
      rw [render_add, String.append_assoc, List.map_cons, String.join_cons]
      rfl

/-- A sum is bare in front and in parentheses behind, a product is bare in
both places and a conditional in neither. Two operands depend on the same
statement. -/
theorem concat_is_flat_sum_mixed :
    let t : Statement := .declaration "t" .constant (some (.literal (.int 1))) none
    let sum : Expr := .binary .subtract (.name "a") (.name "b")
    let product : Expr := .binary .multiply (.name "a") (.hoisted [t] (.name "t"))
    let choice : Expr := .conditional (.name "c") (.hoisted [t] (.name "t")) (.name "b")
    let whole := concat [sum, sum, product, choice]
    whole.render .javascript = "a - b + (a - b) + a * t + (c ? t : b)" ∧
      whole.render .python = "a - b + (a - b) + a * t + (t if c else b)" ∧
      whole.initial = [t] := by
  intro t sum product choice whole
  obtain ⟨hjavascript, -, hinitial⟩ := concat_is_flat_sum .javascript sum sum [product, choice]
  obtain ⟨hpython, -, -⟩ := concat_is_flat_sum .python sum sum [product, choice]
  refine ⟨hjavascript.trans ?_, hpython.trans ?_, hinitial.trans ?_⟩
  all_goals decide +kernel

end Expr

end TargetCode
