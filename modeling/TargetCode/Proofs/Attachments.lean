import Mathlib.Data.List.Induction
import Mathlib.Logic.Relation
import TargetCode.Expr.Compose

/-!
Where the initial statements of an expression come from.

Every node merges the lists of its parts, which are free of duplicates
already, and attaching statements merges once more. The outcome is as if no
list had ever been pruned: collect what was attached anywhere in the
construction of the expression, parts from left to right and each before the
whole, and drop the repetitions once, at the end.
-/

namespace TargetCode

/-! ### Dropping repetitions

`List.eraseDups` keeps the first of several equal entries. Since `merge` adds
one statement at a time at the end, the facts about it go by the last entry of
a list. -/

namespace Statement

theorem eraseDups_concat (ss : List Statement) (s : Statement) :
    (ss ++ [s]).eraseDups = if s ∈ ss then ss.eraseDups else ss.eraseDups ++ [s] := by
  rw [List.eraseDups_append]
  split
  · next h => simp [List.removeAll, h]
  · next h => simp [List.removeAll, h, List.eraseDups_cons]

theorem nodup_eraseDups (ss : List Statement) : ss.eraseDups.Nodup := by
  induction ss using List.reverseRecOn with
  | nil => simp
  | append_singleton ss s ih =>
      rw [eraseDups_concat]
      split
      · exact ih
      · next h =>
        have hnew : s ∉ ss.eraseDups := mt List.mem_eraseDups.1 h
        simpa [List.nodup_append, ih] using fun t ht => ne_of_mem_of_not_mem ht hnew

/-- Repetitions on the right may be dropped beforehand. -/
theorem eraseDups_append_eraseDups (first second : List Statement) :
    (first ++ second.eraseDups).eraseDups = (first ++ second).eraseDups := by
  induction second using List.reverseRecOn with
  | nil => rfl
  | append_singleton ss s ih =>
      rw [eraseDups_concat, ← List.append_assoc, eraseDups_concat (first ++ ss)]
      by_cases h : s ∈ ss
      · simp [h, ih]
      · rw [if_neg h, ← List.append_assoc, eraseDups_concat, ih]
        simp [List.mem_eraseDups]

/-- Repetitions on the left may be dropped beforehand. -/
theorem eraseDups_eraseDups_append (first second : List Statement) :
    (first.eraseDups ++ second).eraseDups = (first ++ second).eraseDups := by
  have hidem : first.eraseDups.eraseDups = first.eraseDups :=
    eraseDups_append_eraseDups [] first
  have hremove : second.removeAll first.eraseDups = second.removeAll first := by
    simp [List.removeAll, List.mem_eraseDups]
  rw [List.eraseDups_append, List.eraseDups_append, hidem, hremove]

theorem eraseDups_eq_self {ss : List Statement} (h : ss.Nodup) : ss.eraseDups = ss := by
  induction ss using List.reverseRecOn with
  | nil => rfl
  | append_singleton ss s ih =>
      obtain ⟨hss, -, hdisjoint⟩ := List.nodup_append.1 h
      have hs : s ∉ ss := fun hs => hdisjoint s hs s List.mem_cons_self rfl
      rw [eraseDups_concat, if_neg hs, ih hss]

theorem merge_eraseDups (first more : List Statement) :
    merge first.eraseDups more = (first ++ more).eraseDups := by
  induction more generalizing first with
  | nil => rw [List.append_nil]; rfl
  | cons s more ih =>
      have hstep : merge first.eraseDups (s :: more) = merge (first ++ [s]).eraseDups more := by
        rw [eraseDups_concat]
        simp [merge, List.mem_eraseDups]
      rw [hstep, ih, List.append_assoc, List.singleton_append]

theorem merge_eq {seen : List Statement} (h : seen.Nodup) (more : List Statement) :
    merge seen more = (seen ++ more).eraseDups := by
  rw [← merge_eraseDups, eraseDups_eq_self h]

end Statement

/-! ### One node -/

namespace Expr

open Statement

/-- The direct parts of a node, from left to right. -/
def children : Expr → List Expr
  | .literal _ | .name _ => []
  | .unary _ e => [e]
  | .binary _ l r => [l, r]
  | .conditional c t f => [c, t, f]
  | .call f args => f :: args
  | .member e _ => [e]
  | .index e key => [e, key]
  | .array es => es
  | .object entries => entries.map fun entry => entry.2
  | .hoisted _ e => e.children

/-- What is attached to the node itself. -/
def attachedHere : Expr → List Statement
  | .hoisted first e => e.attachedHere ++ first
  | _ => []

theorem initialAfter_eq {seen : List Statement} (h : seen.Nodup) (es : List Expr) :
    initialAfter seen es = (seen ++ es.flatMap initial).eraseDups := by
  induction es generalizing seen with
  | nil => rw [initialAfter, List.flatMap_nil, List.append_nil, eraseDups_eq_self h]
  | cons e es ih =>
      rw [initialAfter, merge_eq h, ih (nodup_eraseDups _), eraseDups_eraseDups_append,
        List.flatMap_cons, List.append_assoc]

theorem initialAfterEntries_eq (seen : List Statement) (entries : List (String × Expr)) :
    initialAfterEntries seen entries = initialAfter seen (entries.map fun entry => entry.2) := by
  induction entries generalizing seen with
  | nil => rfl
  | cons entry entries ih => exact ih _

/-- No initial statement is listed twice. -/
theorem nodup_initial : ∀ e : Expr, e.initial.Nodup
  | .literal _ => List.nodup_nil
  | .name _ => List.nodup_nil
  | .unary _ e => nodup_initial e
  | .binary _ l r => by
      rw [initial, merge_eq (nodup_initial l)]
      exact nodup_eraseDups _
  | .conditional c t f => by
      rw [initial, merge_eq (nodup_initial c), merge_eq (nodup_eraseDups _)]
      exact nodup_eraseDups _
  | .call f args => by
      rw [initial, initialAfter_eq (nodup_initial f)]
      exact nodup_eraseDups _
  | .member e _ => nodup_initial e
  | .index e key => by
      rw [initial, merge_eq (nodup_initial e)]
      exact nodup_eraseDups _
  | .array es => by
      rw [initial, initialAfter_eq List.nodup_nil]
      exact nodup_eraseDups _
  | .object entries => by
      rw [initial, initialAfterEntries_eq, initialAfter_eq List.nodup_nil]
      exact nodup_eraseDups _
  | .hoisted first e => by
      rw [initial, merge_eq (nodup_initial e)]
      exact nodup_eraseDups _

/-- A node has the initial statements of its parts and its own, each once. -/
theorem initial_eq : ∀ e : Expr,
    e.initial = (e.children.flatMap initial ++ e.attachedHere).eraseDups
  | .literal _ => rfl
  | .name _ => rfl
  | .unary _ e => by
      simp [initial, children, attachedHere, eraseDups_eq_self (nodup_initial e)]
  | .binary _ l r => by
      simp [initial, children, attachedHere, merge_eq (nodup_initial l)]
  | .conditional c t f => by
      rw [initial, merge_eq (nodup_initial c), merge_eq (nodup_eraseDups _),
        eraseDups_eraseDups_append]
      simp [children, attachedHere]
  | .call f args => by
      simp [initial, children, attachedHere, initialAfter_eq (nodup_initial f)]
  | .member e _ => by
      simp [initial, children, attachedHere, eraseDups_eq_self (nodup_initial e)]
  | .index e key => by
      simp [initial, children, attachedHere, merge_eq (nodup_initial e)]
  | .array es => by
      simp [initial, children, attachedHere, initialAfter_eq List.nodup_nil]
  | .object entries => by
      simp [initial, children, attachedHere, initialAfterEntries_eq,
        initialAfter_eq List.nodup_nil]
  | .hoisted first e => by
      rw [initial, merge_eq (nodup_initial e), initial_eq e, eraseDups_eraseDups_append,
        children, attachedHere, List.append_assoc]

/-- `part` is the expression `e`, or a part of it at some depth. -/
def PartOf (part e : Expr) : Prop :=
  Relation.ReflTransGen (fun child e => child ∈ e.children) part e

theorem initial_subset_of_mem_children {child e : Expr} (h : child ∈ e.children) :
    child.initial ⊆ e.initial := by
  intro s hs
  rw [initial_eq e, List.mem_eraseDups]
  exact List.mem_append_left _ (List.mem_flatMap.2 ⟨child, h, hs⟩)

theorem PartOf.initial_subset {part e : Expr} (h : part.PartOf e) : part.initial ⊆ e.initial := by
  induction h with
  | refl => exact List.Subset.refl _
  | tail _ hchild ih => exact List.Subset.trans ih (initial_subset_of_mem_children hchild)

/-- The list of the leftmost part comes first. -/
theorem initial_prefix_of_head? {child e : Expr} (h : child ∈ e.children.head?) :
    child.initial <+: e.initial := by
  obtain ⟨rest, hchildren⟩ : ∃ rest, e.children = child :: rest := by
    cases hc : e.children with
    | nil => simp [hc] at h
    | cons c rest => exact ⟨rest, by simpa [hc] using h⟩
  rw [initial_eq e, hchildren, List.flatMap_cons, List.append_assoc, List.eraseDups_append,
    eraseDups_eq_self (nodup_initial child)]
  exact List.prefix_append _ _

/-! ### Building expressions -/

/-- Attaching statements merges them into the list, whether or not the node
already carried some. -/
theorem initial_withInitial (e : Expr) (more : List Statement) :
    (e.withInitial more).initial = merge e.initial more := by
  -- What is new follows the old list and does not repeat it.
  obtain ⟨fresh, hfresh⟩ : ∃ fresh, merge e.initial more = e.initial ++ fresh := by
    rw [merge_eq (nodup_initial e), List.eraseDups_append, eraseDups_eq_self (nodup_initial e)]
    exact ⟨_, rfl⟩
  have hmerge : merge e.initial fresh = e.initial ++ fresh := by
    have hnodup : (merge e.initial more).Nodup := by
      rw [merge_eq (nodup_initial e)]
      exact nodup_eraseDups _
    rw [merge_eq (nodup_initial e), ← hfresh, eraseDups_eq_self hnodup]
  unfold withInitial
  rw [hfresh, List.drop_left]
  cases fresh with
  | nil => simp
  | cons s fresh =>
      rw [← hmerge]
      cases e with
      | hoisted first body =>
          rw [initial, initial, merge, List.foldl_append]
          rfl
      | _ => rfl

theorem initial_foldl_binary (o : BinaryOperator) (e : Expr) (es : List Expr) :
    (es.foldl (.binary o) e).initial = initialAfter e.initial es := by
  induction es generalizing e with
  | nil => rfl
  | cons e' es ih => exact ih _

theorem initial_concat (es : List Expr) :
    (concat es).initial = (es.flatMap initial).eraseDups := by
  cases es with
  | nil => rfl
  | cons e es =>
      rw [concat, initial_foldl_binary, initialAfter_eq (nodup_initial e), List.flatMap_cons]

theorem initial_passedTo (callee : String) (e : Expr) :
    (e.passedTo callee).initial = e.initial := by
  rw [passedTo, initial, initial, initialAfter_eq List.nodup_nil]
  simpa using eraseDups_eq_self (nodup_initial e)

/-- Whatever the coercion makes of an expression depends on the same
statements. -/
theorem initial_asString (d : Dialect) (e : Expr) : (e.asString d).initial = e.initial := by
  unfold asString coercion?
  split
  · rfl
  · cases d with
    | javascript =>
        simpa [initial_concat, string, initial] using eraseDups_eq_self (nodup_initial e)
    | python => exact initial_passedTo "str" e

end Expr

/-- The steps by which an expression was put together. Attached statements may
hold any expressions. -/
inductive Construction where
  | literal (value : Literal)
  | name (path : String)
  | unary (operator : UnaryOperator) (operand : Construction)
  | binary (operator : BinaryOperator) (left right : Construction)
  | conditional (condition whenTrue whenFalse : Construction)
  | call (callee : Construction) (args : List Construction)
  | callMember (object : Construction) (method : String) (args : List Construction)
  | member (object : Construction) (field : String)
  | index (object key : Construction)
  | array (elements : List Construction)
  | object (entries : List (String × Construction))
  | withInitial (body : Construction) (more : List Statement)
  | ofConstant (name : String) (value : Expr)
  | concat (operands : List Construction)
  | asString (d : Dialect) (operand : Construction)
  | passedTo (callee : String) (operand : Construction)

namespace Construction

open Statement

mutual

/-- The expression that the steps lead to. -/
def expr : Construction → Expr
  | .literal value => .literal value
  | .name path => .name path
  | .unary o e => .unary o e.expr
  | .binary o l r => .binary o l.expr r.expr
  | .conditional c t f => .conditional c.expr t.expr f.expr
  | .call f args => .call f.expr (exprs args)
  | .callMember e method args => e.expr.callMember method (exprs args)
  | .member e field => .member e.expr field
  | .index e key => .index e.expr key.expr
  | .array es => .array (exprs es)
  | .object entries => .object (exprEntries entries)
  | .withInitial e more => e.expr.withInitial more
  | .ofConstant declared value => .ofConstant declared value
  | .concat es => .concat (exprs es)
  | .asString d e => e.expr.asString d
  | .passedTo callee e => e.expr.passedTo callee
termination_by structural c => c

def exprs : List Construction → List Expr
  | [] => []
  | e :: es => e.expr :: exprs es
termination_by structural es => es

def exprEntries : List (String × Construction) → List (String × Expr)
  | [] => []
  | (key, e) :: es => (key, e.expr) :: exprEntries es
termination_by structural es => es

end

mutual

/-- Everything that was attached on the way, what was attached to the parts
before what was attached to the whole. -/
def attached : Construction → List Statement
  | .literal _ => []
  | .name _ => []
  | .unary _ e => e.attached
  | .binary _ l r => l.attached ++ r.attached
  | .conditional c t f => c.attached ++ t.attached ++ f.attached
  | .call f args => f.attached ++ attachedAll args
  | .callMember e _ args => e.attached ++ attachedAll args
  | .member e _ => e.attached
  | .index e key => e.attached ++ key.attached
  | .array es => attachedAll es
  | .object entries => attachedEntries entries
  | .withInitial e more => e.attached ++ more
  | .ofConstant declared value => [.declaration declared .constant (some value) none]
  | .concat es => attachedAll es
  | .asString _ e => e.attached
  | .passedTo _ e => e.attached
termination_by structural c => c

def attachedAll : List Construction → List Statement
  | [] => []
  | e :: es => e.attached ++ attachedAll es
termination_by structural es => es

def attachedEntries : List (String × Construction) → List Statement
  | [] => []
  | (_, e) :: es => e.attached ++ attachedEntries es
termination_by structural es => es

end

mutual

theorem initial_expr : ∀ c : Construction, c.expr.initial = c.attached.eraseDups
  | .literal _ => rfl
  | .name _ => rfl
  | .unary _ e => initial_expr e
  | .binary _ l r => by
      rw [expr, Expr.initial, initial_expr l, initial_expr r, merge_eraseDups,
        eraseDups_append_eraseDups, attached]
  | .conditional c t f => by
      rw [expr, Expr.initial, initial_expr c, initial_expr t, initial_expr f, merge_eraseDups,
        eraseDups_append_eraseDups, merge_eraseDups, eraseDups_append_eraseDups, attached]
  | .call f args => by
      rw [expr, Expr.initial, initial_expr f, initialAfter_exprs args, attached]
  | .callMember e _ args => by
      rw [expr, Expr.callMember, Expr.initial, Expr.initial, initial_expr e,
        initialAfter_exprs args, attached]
  | .member e _ => initial_expr e
  | .index e key => by
      rw [expr, Expr.initial, initial_expr e, initial_expr key, merge_eraseDups,
        eraseDups_append_eraseDups, attached]
  | .array es => initialAfter_exprs es []
  | .object entries => initialAfter_exprEntries entries []
  | .withInitial e more => by
      rw [expr, Expr.initial_withInitial, initial_expr e, merge_eraseDups, attached]
  | .ofConstant declared value => by
      rw [expr, Expr.ofConstant, Expr.initial_withInitial, attached]
      rfl
  | .concat es => by
      have hes := initialAfter_exprs es []
      rwa [List.eraseDups_nil, Expr.initialAfter_eq List.nodup_nil, List.nil_append,
        ← Expr.initial_concat] at hes
  | .asString d e => by rw [expr, Expr.initial_asString, initial_expr e, attached]
  | .passedTo _ e => by rw [expr, Expr.initial_passedTo, initial_expr e, attached]

theorem initialAfter_exprs : ∀ (cs : List Construction) (seen : List Statement),
    Expr.initialAfter seen.eraseDups (exprs cs) = (seen ++ attachedAll cs).eraseDups
  | [], seen => by rw [attachedAll, List.append_nil]; rfl
  | c :: cs, seen => by
      rw [exprs, Expr.initialAfter, initial_expr c, merge_eraseDups, eraseDups_append_eraseDups,
        initialAfter_exprs cs, attachedAll, List.append_assoc]

theorem initialAfter_exprEntries :
    ∀ (entries : List (String × Construction)) (seen : List Statement),
      Expr.initialAfterEntries seen.eraseDups (exprEntries entries) =
        (seen ++ attachedEntries entries).eraseDups
  | [], seen => by rw [attachedEntries, List.append_nil]; rfl
  | (_, c) :: entries, seen => by
      rw [exprEntries, Expr.initialAfterEntries, initial_expr c, merge_eraseDups,
        eraseDups_append_eraseDups, initialAfter_exprEntries entries, attachedEntries,
        List.append_assoc]

end

/-- However an expression was built, its initial statements are what was
attached on the way, in this order and each at its first place. So nothing is
listed twice, no part of the expression depends on anything that the whole
does not, and the list starts with that of the leftmost part. -/
theorem initial_lists_attached_once (c : Construction) :
    c.expr.initial.Nodup ∧ c.expr.initial = c.attached.eraseDups ∧
      (∀ part : Expr, part.PartOf c.expr → part.initial ⊆ c.expr.initial) ∧
      ∀ child ∈ c.expr.children.head?, child.initial <+: c.expr.initial :=
  ⟨c.expr.nodup_initial, initial_expr c, fun _ h => h.initial_subset,
    fun _ h => Expr.initial_prefix_of_head? h⟩

end Construction

end TargetCode
