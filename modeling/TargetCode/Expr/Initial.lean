import TargetCode.Expr.Basic

/-!
The statements that have to run before an expression.

An expression inherits the initial statements of its parts, from left to
right, followed by the ones attached to itself. A statement that is already
in the list is not added again, so every list is free of duplicates.
-/

namespace TargetCode

/-- Adds to `seen` the statements of `more` that it does not hold yet. -/
def Statement.merge (seen more : List Statement) : List Statement :=
  more.foldl (fun seen s => if s ∈ seen then seen else seen ++ [s]) seen

mutual

def Expr.initial : Expr → List Statement
  | .literal _ => []
  | .name _ => []
  | .unary _ e => e.initial
  | .binary _ l r => Statement.merge l.initial r.initial
  | .conditional c t f => Statement.merge (Statement.merge c.initial t.initial) f.initial
  | .call f args => Expr.initialAfter f.initial args
  | .member e _ => e.initial
  | .index e k => Statement.merge e.initial k.initial
  | .array es => Expr.initialAfter [] es
  | .object entries => Expr.initialAfterEntries [] entries
  | .hoisted first e => Statement.merge e.initial first
termination_by structural e => e

/-- The initial statements of several expressions in turn, after `seen`. -/
def Expr.initialAfter (seen : List Statement) : List Expr → List Statement
  | [] => seen
  | e :: es => Expr.initialAfter (Statement.merge seen e.initial) es
termination_by structural es => es

def Expr.initialAfterEntries (seen : List Statement) : List (String × Expr) → List Statement
  | [] => seen
  | (_, e) :: es => Expr.initialAfterEntries (Statement.merge seen e.initial) es
termination_by structural es => es

end

/-- The expression with `more` to be run before it as well. Only what it
does not depend on already is attached. -/
def Expr.withInitial (e : Expr) (more : List Statement) : Expr :=
  match (Statement.merge e.initial more).drop e.initial.length, e with
  | [], e => e
  | fresh, .hoisted first body => .hoisted (first ++ fresh) body
  | fresh, e => .hoisted fresh e

theorem Statement.mem_merge {s : Statement} {seen more : List Statement} :
    s ∈ Statement.merge seen more ↔ s ∈ seen ∨ s ∈ more := by
  induction more generalizing seen with
  | nil => simp [Statement.merge]
  | cons t more ih =>
    have step : Statement.merge seen (t :: more) =
        Statement.merge (if t ∈ seen then seen else seen ++ [t]) more := rfl
    rw [step, ih]
    split <;> grind

mutual

/-- Initial statements are parts of the expression, so they are smaller. -/
theorem Expr.sizeOf_lt_of_mem_initial {s : Statement} :
    ∀ {e : Expr}, s ∈ e.initial → sizeOf s < sizeOf e
  | .literal _, h => by simp [Expr.initial] at h
  | .name _, h => by simp [Expr.initial] at h
  | .unary _ e, h => by
    have := Expr.sizeOf_lt_of_mem_initial (e := e) (by simpa [Expr.initial] using h)
    simp; omega
  | .binary _ l r, h => by
    simp only [Expr.initial, Statement.mem_merge] at h
    rcases h with h | h <;> have := Expr.sizeOf_lt_of_mem_initial h <;> simp <;> omega
  | .conditional c t f, h => by
    simp only [Expr.initial, Statement.mem_merge] at h
    rcases h with (h | h) | h <;> have := Expr.sizeOf_lt_of_mem_initial h <;> simp <;> omega
  | .call f args, h => by
    simp only [Expr.initial] at h
    rcases Expr.sizeOf_lt_of_mem_initialAfter h with h | h
    · have := Expr.sizeOf_lt_of_mem_initial h
      simp; omega
    · simp; omega
  | .member e _, h => by
    have := Expr.sizeOf_lt_of_mem_initial (e := e) (by simpa [Expr.initial] using h)
    simp; omega
  | .index e k, h => by
    simp only [Expr.initial, Statement.mem_merge] at h
    rcases h with h | h <;> have := Expr.sizeOf_lt_of_mem_initial h <;> simp <;> omega
  | .array es, h => by
    simp only [Expr.initial] at h
    rcases Expr.sizeOf_lt_of_mem_initialAfter h with h | h
    · simp at h
    · simp; omega
  | .object es, h => by
    simp only [Expr.initial] at h
    rcases Expr.sizeOf_lt_of_mem_initialAfterEntries h with h | h
    · simp at h
    · simp; omega
  | .hoisted first e, h => by
    simp only [Expr.initial, Statement.mem_merge] at h
    rcases h with h | h
    · have := Expr.sizeOf_lt_of_mem_initial h
      simp; omega
    · have := List.sizeOf_lt_of_mem h
      simp; omega

theorem Expr.sizeOf_lt_of_mem_initialAfter {s : Statement} :
    ∀ {es : List Expr} {seen : List Statement},
      s ∈ Expr.initialAfter seen es → s ∈ seen ∨ sizeOf s < sizeOf es
  | [], _, h => .inl (by simpa [Expr.initialAfter] using h)
  | e :: es, seen, h => by
    simp only [Expr.initialAfter] at h
    rcases Expr.sizeOf_lt_of_mem_initialAfter h with h | h
    · rcases Statement.mem_merge.1 h with h | h
      · exact .inl h
      · have := Expr.sizeOf_lt_of_mem_initial h
        right; simp; omega
    · right; simp; omega

theorem Expr.sizeOf_lt_of_mem_initialAfterEntries {s : Statement} :
    ∀ {es : List (String × Expr)} {seen : List Statement},
      s ∈ Expr.initialAfterEntries seen es → s ∈ seen ∨ sizeOf s < sizeOf es
  | [], _, h => .inl (by simpa [Expr.initialAfterEntries] using h)
  | (k, e) :: es, seen, h => by
    simp only [Expr.initialAfterEntries] at h
    rcases Expr.sizeOf_lt_of_mem_initialAfterEntries h with h | h
    · rcases Statement.mem_merge.1 h with h | h
      · exact .inl h
      · have := Expr.sizeOf_lt_of_mem_initial h
        right; simp; omega
    · right; simp; omega

end

end TargetCode
