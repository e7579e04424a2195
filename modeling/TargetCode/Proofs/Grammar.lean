import Mathlib.Algebra.GroupWithZero.Nat
import TargetCode.Expr.Render
import TargetCode.Proofs.Tokens

/-!
The grammar of expressions, one nonterminal for each level.

A binary operator that groups to the left is left-recursive at its own level;
one that does not group takes both operands from the next level, so it cannot
be chained. Any expression of the next level is also one of this level, and
parentheses lead back to the weakest one. A derivation keeps count of the
parentheses that group.
-/

namespace TargetCode

/-- The next stronger level. -/
def Level.next : Level → Level
  | .conditional => .logicalOr
  | .logicalOr => .logicalAnd
  | .logicalAnd => .logicalNot
  | .logicalNot => .equality
  | .equality => .relational
  | .relational => .additive
  | .additive => .multiplicative
  | .multiplicative => .unary
  | .unary => .primary
  | .primary => .primary

theorem Level.rank_next {l : Level} (h : l ≠ .primary) : l.next.rank = l.rank + 1 := by
  cases l <;> first | rfl | contradiction

namespace Dialect

/-- The words that are operators or constants. -/
def keywords : Dialect → List String
  | .javascript => ["in", "true", "false", "null"]
  | .python => ["or", "and", "not", "in", "if", "else", "True", "False", "None"]

/-- The constant that a word stands for. -/
def constant? : Dialect → String → Option Literal
  | .javascript, w =>
    if w = "true" then some (.bool true)
    else if w = "false" then some (.bool false)
    else if w = "null" then some .null
    else none
  | .python, w =>
    if w = "True" then some (.bool true)
    else if w = "False" then some (.bool false)
    else if w = "None" then some .null
    else none

/-- The token of an operator between two operands. -/
def binaryToken : Dialect → BinaryOperator → Token
  | .python, .or => .word "or"
  | .python, .and => .word "and"
  | _, .elementOf => .word "in"
  | d, o => .symbol (d.binarySymbol o)

/-- The token of an operator before its operand. -/
def unaryToken : Dialect → UnaryOperator → Token
  | .python, .not => .word "not"
  | d, o => .symbol (d.unarySymbol o)

theorem binaryToken_ne_number (d : Dialect) (o : BinaryOperator) (n : Nat) :
    d.binaryToken o ≠ .number n := by
  cases d <;> cases o <;> simp [binaryToken]

theorem unaryToken_ne_number (d : Dialect) (o : UnaryOperator) (n : Nat) :
    d.unaryToken o ≠ .number n := by
  cases d <;> cases o <;> simp [unaryToken]

theorem unaryToken_ne_string (d : Dialect) (o : UnaryOperator) (s : String) :
    d.unaryToken o ≠ .string s := by
  cases d <;> cases o <;> simp [unaryToken]

end Dialect

/-- Whether the tokens are a number on its own. -/
def BareNumber (ts : List Token) : Prop :=
  ∃ n, ts = [Token.number n]

/-- Token lists with commas between them. -/
def separated (parts : List (List Token)) : List Token :=
  List.intercalate [.symbol ","] parts

/-- One of several expressions with commas between them, and the number of
pairs in its derivation. -/
structure Derived where
  tokens : List Token
  tree : Expr
  pairs : Nat

/-- `Derivation d target l ts e n` says that the nonterminal of level `l` derives
the tokens `ts` with the tree `e`, and that `n` pairs of parentheses in them are
there for grouping. `target` says which tokens may be called, or have a field or
an index taken. -/
inductive Derivation (d : Dialect) (target : List Token → Prop) :
    Level → List Token → Expr → Nat → Prop
  | name {w : String} (h : w ∉ d.keywords) : Derivation d target .primary [.word w] (.name w) 0
  | constant {w : String} {v : Literal} (h : d.constant? w = some v) :
      Derivation d target .primary [.word w] (.literal v) 0
  | number (k : Nat) : Derivation d target .primary [.number k] (.literal (.int k)) 0
  | string (s : String) : Derivation d target .primary [.string s] (.literal (.str s)) 0
  | group {ts : List Token} {e : Expr} {n : Nat} (h : Derivation d target .conditional ts e n) :
      Derivation d target .primary (.symbol "(" :: (ts ++ [.symbol ")"])) e (n + 1)
  | array (items : List Derived)
      (h : ∀ i ∈ items, Derivation d target .conditional i.tokens i.tree i.pairs) :
      Derivation d target .primary
        (.symbol "[" :: (separated (items.map Derived.tokens) ++ [.symbol "]"]))
        (.array (items.map Derived.tree)) (items.map Derived.pairs).sum
  | object (entries : List (String × Derived))
      (h : ∀ i ∈ entries, Derivation d target .conditional i.2.tokens i.2.tree i.2.pairs) :
      Derivation d target .primary
        (.symbol "\x7b" ::
          (separated (entries.map fun i => .string i.1 :: .symbol ":" :: i.2.tokens) ++
            [.symbol "\x7d"]))
        (.object (entries.map fun i => (i.1, i.2.tree))) (entries.map fun i => i.2.pairs).sum
  | call {ts : List Token} {f : Expr} {n : Nat} (items : List Derived)
      (hf : Derivation d target .primary ts f n) (hts : target ts)
      (h : ∀ i ∈ items, Derivation d target .conditional i.tokens i.tree i.pairs) :
      Derivation d target .primary
        (ts ++ .symbol "(" :: (separated (items.map Derived.tokens) ++ [.symbol ")"]))
        (.call f (items.map Derived.tree)) (n + (items.map Derived.pairs).sum)
  | member {ts : List Token} {e : Expr} {n : Nat} {field : String}
      (he : Derivation d target .primary ts e n) (hts : target ts) (hfield : field ∉ d.keywords) :
      Derivation d target .primary (ts ++ [.symbol ".", .word field]) (.member e field) n
  | index {ts us : List Token} {e key : Expr} {n m : Nat}
      (he : Derivation d target .primary ts e n) (hts : target ts)
      (hkey : Derivation d target .conditional us key m) :
      Derivation d target .primary (ts ++ .symbol "[" :: (us ++ [.symbol "]"])) (.index e key)
        (n + m)
  | unary (o : UnaryOperator) {ts : List Token} {e : Expr} {n : Nat}
      (h : Derivation d target (d.unaryLevel o) ts e n) :
      Derivation d target (d.unaryLevel o) (d.unaryToken o :: ts) (.unary o e) n
  | chain (o : BinaryOperator) {ts us : List Token} {a b : Expr} {n m : Nat}
      (ho : d.associativity o = .left)
      (ha : Derivation d target (d.binaryLevel o) ts a n)
      (hb : Derivation d target (d.binaryLevel o).next us b m) :
      Derivation d target (d.binaryLevel o) (ts ++ d.binaryToken o :: us) (.binary o a b) (n + m)
  | single (o : BinaryOperator) {ts us : List Token} {a b : Expr} {n m : Nat}
      (ho : d.associativity o = .nonAssociative)
      (ha : Derivation d target (d.binaryLevel o).next ts a n)
      (hb : Derivation d target (d.binaryLevel o).next us b m) :
      Derivation d target (d.binaryLevel o) (ts ++ d.binaryToken o :: us) (.binary o a b) (n + m)
  | javascriptConditional {ts us vs : List Token} {c t f : Expr} {n m k : Nat}
      (hd : d = .javascript) (hc : Derivation d target .logicalOr ts c n)
      (ht : Derivation d target .conditional us t m)
      (hf : Derivation d target .conditional vs f k) :
      Derivation d target .conditional (ts ++ .symbol "?" :: (us ++ .symbol ":" :: vs))
        (.conditional c t f) (n + m + k)
  | pythonConditional {ts us vs : List Token} {c t f : Expr} {n m k : Nat}
      (hd : d = .python) (ht : Derivation d target .logicalOr ts t m)
      (hc : Derivation d target .logicalOr us c n)
      (hf : Derivation d target .conditional vs f k) :
      Derivation d target .conditional (ts ++ .word "if" :: (us ++ .word "else" :: vs))
        (.conditional c t f) (n + m + k)
  | next {l : Level} {ts : List Token} {e : Expr} {n : Nat} (hl : l ≠ .primary)
      (h : Derivation d target l.next ts e n) : Derivation d target l ts e n

/-- What may be called, or have a field or an index taken, grows with `target`. -/
theorem Derivation.mono {d : Dialect} {target target' : List Token → Prop}
    (htarget : ∀ ts, target ts → target' ts) {l : Level} {ts : List Token} {e : Expr} {n : Nat}
    (h : Derivation d target l ts e n) : Derivation d target' l ts e n := by
  induction h with
  | name h => exact .name h
  | constant h => exact .constant h
  | number k => exact .number k
  | string s => exact .string s
  | group _ ih => exact .group ih
  | array items _ ih => exact .array items ih
  | object entries _ ih => exact .object entries ih
  | call items _ hts _ ihf ih => exact .call items ihf (htarget _ hts) ih
  | member _ hts hfield ih => exact .member ih (htarget _ hts) hfield
  | index _ hts _ ih ihkey => exact .index ih (htarget _ hts) ihkey
  | unary o _ ih => exact .unary o ih
  | chain o ho _ _ iha ihb => exact .chain o ho iha ihb
  | single o ho _ _ iha ihb => exact .single o ho iha ihb
  | javascriptConditional hd _ _ _ ihc iht ihf => exact .javascriptConditional hd ihc iht ihf
  | pythonConditional hd _ _ _ iht ihc ihf => exact .pythonConditional hd iht ihc ihf
  | next hl _ ih => exact .next hl ih

/-- The grammar of expressions in a dialect. A number needs parentheses before a
call, a field or an index. -/
def Derives (d : Dialect) (l : Level) (ts : List Token) (e : Expr) : Prop :=
  ∃ n, Derivation d (¬BareNumber ·) l ts e n

end TargetCode
