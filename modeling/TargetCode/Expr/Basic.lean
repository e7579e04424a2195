import TargetCode.Literal
import TargetCode.Operator

/-!
Expressions and statements, and their equality.

An expression may depend on statements that have to run before it is
evaluated. They are attached to the node that needs them by `hoisted`; the
node is otherwise unchanged, and `Expr.bare` takes the attachment off.
-/

namespace TargetCode

/-- Whether a declared name may be assigned again. -/
inductive Binding where
  | constant
  | variable
  deriving DecidableEq, Repr

mutual

inductive Expr where
  | literal (value : Literal)
  /-- A variable or a dotted path such as `app.run`. -/
  | name (path : String)
  | unary (operator : UnaryOperator) (operand : Expr)
  | binary (operator : BinaryOperator) (left right : Expr)
  | conditional (condition whenTrue whenFalse : Expr)
  | call (callee : Expr) (args : List Expr)
  | member (object : Expr) (field : String)
  | index (object key : Expr)
  | array (elements : List Expr)
  | object (entries : List (String × Expr))
  /-- The expression `body`, with `first` to be run before it. -/
  | hoisted (first : List Statement) (body : Expr)

inductive Statement where
  | sequence (parts : List Statement)
  | expression (value : Expr) (doc : Option String)
  | declaration (name : String) (binding : Binding) (value : Option Expr) (doc : Option String)

end

/-! ### Equality

Two trees are equal if they have the same shape and the same leaves. Deciding
it is a plain recursion on the first tree, with one function for each kind of
list in it. -/

mutual

def Expr.same : Expr → Expr → Bool
  | .literal a, .literal b => a = b
  | .name a, .name b => a = b
  | .unary o a, .unary o' a' => o = o' && a.same a'
  | .binary o a b, .binary o' a' b' => o = o' && a.same a' && b.same b'
  | .conditional a b c, .conditional a' b' c' => a.same a' && b.same b' && c.same c'
  | .call f as, .call f' as' => f.same f' && Expr.sameAll as as'
  | .member a n, .member a' n' => a.same a' && n = n'
  | .index a b, .index a' b' => a.same a' && b.same b'
  | .array as, .array as' => Expr.sameAll as as'
  | .object es, .object es' => Expr.sameEntries es es'
  | .hoisted ss a, .hoisted ss' a' => Statement.sameAll ss ss' && a.same a'
  | _, _ => false
termination_by structural a => a

def Expr.sameAll : List Expr → List Expr → Bool
  | [], [] => true
  | a :: as, b :: bs => a.same b && Expr.sameAll as bs
  | _, _ => false
termination_by structural as => as

def Expr.sameEntries : List (String × Expr) → List (String × Expr) → Bool
  | [], [] => true
  | (k, a) :: as, (l, b) :: bs => k = l && a.same b && Expr.sameEntries as bs
  | _, _ => false
termination_by structural as => as

def Expr.sameOption : Option Expr → Option Expr → Bool
  | none, none => true
  | some a, some b => a.same b
  | _, _ => false
termination_by structural a => a

def Statement.same : Statement → Statement → Bool
  | .sequence as, .sequence bs => Statement.sameAll as bs
  | .expression a d, .expression b e => a.same b && d = e
  | .declaration n k v d, .declaration m l w e => n = m && k = l && Expr.sameOption v w && d = e
  | _, _ => false
termination_by structural a => a

def Statement.sameAll : List Statement → List Statement → Bool
  | [], [] => true
  | a :: as, b :: bs => a.same b && Statement.sameAll as bs
  | _, _ => false
termination_by structural as => as

end

mutual

theorem Expr.same_iff : ∀ a b : Expr, a.same b = true ↔ a = b
  | .literal _, b => by cases b <;> simp [Expr.same]
  | .name _, b => by cases b <;> simp [Expr.same]
  | .unary _ a, b => by cases b <;> simp [Expr.same, Expr.same_iff a]
  | .binary _ a c, b => by
    cases b <;> simp [Expr.same, Expr.same_iff a, Expr.same_iff c, and_assoc]
  | .conditional a c d, b => by
    cases b <;> simp [Expr.same, Expr.same_iff a, Expr.same_iff c, Expr.same_iff d, and_assoc]
  | .call f as, b => by cases b <;> simp [Expr.same, Expr.same_iff f, Expr.sameAll_iff as]
  | .member a _, b => by cases b <;> simp [Expr.same, Expr.same_iff a]
  | .index a c, b => by cases b <;> simp [Expr.same, Expr.same_iff a, Expr.same_iff c]
  | .array as, b => by cases b <;> simp [Expr.same, Expr.sameAll_iff as]
  | .object es, b => by cases b <;> simp [Expr.same, Expr.sameEntries_iff es]
  | .hoisted ss a, b => by
    cases b <;> simp [Expr.same, Statement.sameAll_iff ss, Expr.same_iff a]

theorem Expr.sameAll_iff : ∀ as bs : List Expr, Expr.sameAll as bs = true ↔ as = bs
  | [], bs => by cases bs <;> simp [Expr.sameAll]
  | a :: as, bs => by cases bs <;> simp [Expr.sameAll, Expr.same_iff a, Expr.sameAll_iff as]

theorem Expr.sameEntries_iff : ∀ as bs : List (String × Expr),
    Expr.sameEntries as bs = true ↔ as = bs
  | [], bs => by cases bs <;> simp [Expr.sameEntries]
  | (_, a) :: as, bs => by
    cases bs <;> simp [Expr.sameEntries, Expr.same_iff a, Expr.sameEntries_iff as, Prod.ext_iff]

theorem Expr.sameOption_iff : ∀ a b : Option Expr, Expr.sameOption a b = true ↔ a = b
  | none, b => by cases b <;> simp [Expr.sameOption]
  | some a, b => by cases b <;> simp [Expr.sameOption, Expr.same_iff a]

theorem Statement.same_iff : ∀ a b : Statement, a.same b = true ↔ a = b
  | .sequence as, b => by cases b <;> simp [Statement.same, Statement.sameAll_iff as]
  | .expression a _, b => by cases b <;> simp [Statement.same, Expr.same_iff a]
  | .declaration _ _ v _, b => by
    cases b <;> simp [Statement.same, Expr.sameOption_iff v, and_assoc]

theorem Statement.sameAll_iff : ∀ as bs : List Statement, Statement.sameAll as bs = true ↔ as = bs
  | [], bs => by cases bs <;> simp [Statement.sameAll]
  | a :: as, bs => by
    cases bs <;> simp [Statement.sameAll, Statement.same_iff a, Statement.sameAll_iff as]

end

instance : DecidableEq Expr := fun a b => decidable_of_iff _ (Expr.same_iff a b)

instance : DecidableEq Statement := fun a b => decidable_of_iff _ (Statement.same_iff a b)

/-- The expression without the statements attached to it. -/
def Expr.bare : Expr → Expr
  | .hoisted _ e => e.bare
  | e => e

/-- The value of a string literal. -/
def Expr.string? (e : Expr) : Option String :=
  match e.bare with
  | .literal (.str s) => some s
  | _ => none

/-- The name that a statement declares. -/
def Statement.declared? : Statement → Option String
  | .declaration name _ _ _ => some name
  | .sequence _ | .expression _ _ => none

/-- The statement under a documentation header. A sequence has no header of
its own. -/
def Statement.withDoc (s : Statement) (text : String) : Statement :=
  match s with
  | .sequence parts => .sequence parts
  | .expression value _ => .expression value (some text)
  | .declaration name binding value _ => .declaration name binding value (some text)

end TargetCode
