import Mathlib.Algebra.GroupWithZero.Nat
import Mathlib.Algebra.Order.BigOperators.Group.List
import Mathlib.Algebra.Order.Group.Nat
import TargetCode.Proofs.Rendering

/-!
No text with the same tree gets by with fewer parentheses.

A derivation may put parentheses around anything, so a tree has many texts.
In each of them an operand that is too weak for its place needs a pair of its
own, and these are the pairs that rendering writes. Only around an unsigned
number before a call, a field or an index does it write a pair that the levels
do not ask for.
-/

namespace TargetCode

open Token

namespace Expr

mutual

/-- The sum of a weight over all nodes of an expression. -/
def total (weight : Expr → Nat) : Expr → Nat
  | .literal v => weight (.literal v)
  | .name path => weight (.name path)
  | .unary o e => weight (.unary o e) + e.total weight
  | .binary o l r => weight (.binary o l r) + l.total weight + r.total weight
  | .conditional c t f =>
    weight (.conditional c t f) + c.total weight + t.total weight + f.total weight
  | .call f args => weight (.call f args) + f.total weight + totalAll weight args
  | .member e field => weight (.member e field) + e.total weight
  | .index e key => weight (.index e key) + e.total weight + key.total weight
  | .array es => weight (.array es) + totalAll weight es
  | .object entries => weight (.object entries) + totalEntries weight entries
  | .hoisted _ e => e.total weight
termination_by structural e => e

def totalAll (weight : Expr → Nat) : List Expr → Nat
  | [] => 0
  | e :: es => e.total weight + totalAll weight es
termination_by structural es => es

def totalEntries (weight : Expr → Nat) : List (String × Expr) → Nat
  | [] => 0
  | (_, e) :: es => e.total weight + totalEntries weight es
termination_by structural es => es

end

theorem totalAll_eq_sum (weight : Expr → Nat) (es : List Expr) :
    totalAll weight es = (es.map (total weight)).sum := by
  induction es with
  | nil => rfl
  | cons e es ih => rw [totalAll, ih, List.map_cons, List.sum_cons]

theorem totalEntries_eq_sum (weight : Expr → Nat) (es : List (String × Expr)) :
    totalEntries weight es = (es.map fun i => i.2.total weight).sum := by
  induction es with
  | nil => rfl
  | cons e es ih => rw [totalEntries, ih, List.map_cons, List.sum_cons]

/-- The operands of a node that are too weak for their places. -/
def weakOperands (d : Dialect) : Expr → Nat
  | .unary o e => ((d.unaryLevel o).needsParensAlone (e.level d)).toNat
  | .binary o l r =>
    ((d.binaryLevel o).needsParens (d.associativity o) (l.level d) .left).toNat +
      ((d.binaryLevel o).needsParens (d.associativity o) (r.level d) .right).toNat
  | .conditional c t f =>
    (c.needsParensInConditional d .left).toNat +
      (t.needsParensInConditional d (if d = .javascript then .right else .left)).toNat +
      (f.needsParensInConditional d .right).toNat
  | .call e _ | .member e _ | .index e _ => (Level.primary.needsParensAlone (e.level d)).toNat
  | _ => 0

/-- A number without a minus sign. -/
def isUnsigned : Expr → Bool
  | .literal v => v.isNumber && !v.isNegative
  | .hoisted _ e => e.isUnsigned
  | _ => false

/-- One for a node that calls an unsigned number or takes a field or an index
of it. -/
def unsignedTarget : Expr → Nat
  | .call e _ | .member e _ | .index e _ => e.isUnsigned.toNat
  | _ => 0

def isCall : Expr → Nat
  | .call _ _ => 1
  | _ => 0

end Expr

/-! ### Too few pairs are not enough -/

/-- One if an expression of level `actual` has to be in parentheses where
`needed` is asked for. -/
def Level.shortfall (needed actual : Level) : Nat :=
  if actual.rank < needed.rank then 1 else 0

theorem Level.shortfall_le_next (l actual : Level) :
    l.shortfall actual ≤ l.next.shortfall actual := by
  have hnext : l.rank ≤ l.next.rank := by cases l <;> decide
  unfold shortfall
  split <;> split <;> omega

theorem Level.shortfall_self (l : Level) : l.shortfall l = 0 := by
  simp [shortfall]

theorem Level.toNat_needsParensAlone_le (needed actual : Level) :
    (needed.needsParensAlone actual).toNat ≤ needed.shortfall actual := by
  unfold needsParensAlone weaker shortfall
  split
  · exact Bool.toNat_le _
  · simp_all

/-- Where equally strong operands are grouped, the operator's own level is
asked for. -/
theorem Level.toNat_needsParens_le_self (operator : Level) {a : Associativity} {side : Side}
    (h : a.admits side = true) (actual : Level) :
    (operator.needsParens a actual side).toNat ≤ operator.shortfall actual := by
  unfold needsParens weaker shortfall
  split
  · simp
  · split <;> simp_all

/-- Elsewhere the next level is asked for. -/
theorem Level.toNat_needsParens_le_next {operator : Level} (h : operator ≠ .primary)
    (a : Associativity) (actual : Level) (side : Side) :
    (operator.needsParens a actual side).toNat ≤ operator.next.shortfall actual := by
  have hnext := Level.rank_next h
  by_cases hstrong : operator.next.rank ≤ actual.rank
  · have hne : actual ≠ operator := by
      rintro rfl
      omega
    simp [needsParens, weaker, hne, show ¬actual.rank < operator.rank by omega]
  · rw [shortfall, if_pos (by omega)]
    exact Bool.toNat_le _

theorem Expr.toNat_needsParensInConditional_left (e : Expr) (d : Dialect) :
    (e.needsParensInConditional d .left).toNat ≤ Level.logicalOr.shortfall (e.level d) :=
  Level.toNat_needsParens_le_next (by decide) .right (e.level d) .left

theorem Expr.toNat_needsParensInConditional_right (e : Expr) (d : Dialect) :
    (e.needsParensInConditional d .right).toNat ≤ Level.conditional.shortfall (e.level d) :=
  Level.toNat_needsParens_le_self .conditional rfl (e.level d)

theorem Expr.level_constant {d : Dialect} {w : String} {v : Literal} (h : d.constant? w = some v) :
    (Expr.literal v).level d = .primary := by
  cases d <;> simp only [Dialect.constant?] at h <;> split_ifs at h <;>
    obtain rfl := Option.some.inj h <;> rfl

/-- Every derivation has the pairs that the operands in the tree need, and one
more if the tree as a whole is too weak for its place. -/
theorem Derivation.weakOperands_le {d : Dialect} {target : List Token → Prop} {l : Level}
    {ts : List Token} {e : Expr} {n : Nat} (h : Derivation d target l ts e n) :
    e.total (Expr.weakOperands d) + l.shortfall (e.level d) ≤ n := by
  induction h with
  | name h => exact Nat.le_refl 0
  | constant h =>
      rw [Expr.level_constant h]
      exact Nat.le_refl 0
  | number k =>
      have hk : ¬(k : Int) < 0 := by omega
      simp [Expr.total, Expr.weakOperands, Expr.level, Literal.isNegative, hk, Level.shortfall_self]
  | string s => exact Nat.le_refl 0
  | @group ts e n _ ih =>
      have : Level.primary.shortfall (e.level d) ≤ 1 := by
        unfold Level.shortfall
        split <;> omega
      omega
  | array items _ ih =>
      have hitems := List.sum_le_sum fun i hi => Nat.le_of_add_right_le (ih i hi)
      simp only [Expr.total, Expr.weakOperands, Expr.level, Level.shortfall_self,
        Expr.totalAll_eq_sum, List.map_map, Function.comp_def]
      omega
  | object entries _ ih =>
      have hentries := List.sum_le_sum fun i hi => Nat.le_of_add_right_le (ih i hi)
      simp only [Expr.total, Expr.weakOperands, Expr.level, Level.shortfall_self,
        Expr.totalEntries_eq_sum, List.map_map, Function.comp_def]
      omega
  | @call ts f n items _ _ _ ihf ih =>
      have hf := Level.toNat_needsParensAlone_le .primary (f.level d)
      have hitems := List.sum_le_sum fun i hi => Nat.le_of_add_right_le (ih i hi)
      simp only [Expr.total, Expr.weakOperands, Expr.level, Level.shortfall_self,
        Expr.totalAll_eq_sum, List.map_map, Function.comp_def]
      omega
  | @member ts e n field _ _ _ ih =>
      have he := Level.toNat_needsParensAlone_le .primary (e.level d)
      simp only [Expr.total, Expr.weakOperands, Expr.level, Level.shortfall_self]
      omega
  | @index ts us e key n m _ _ _ ih ihkey =>
      have he := Level.toNat_needsParensAlone_le .primary (e.level d)
      simp only [Expr.total, Expr.weakOperands, Expr.level, Level.shortfall_self]
      omega
  | @unary o ts e n _ ih =>
      have he := Level.toNat_needsParensAlone_le (d.unaryLevel o) (e.level d)
      simp only [Expr.total, Expr.weakOperands, Expr.level, Level.shortfall_self]
      omega
  | @chain o ts us a b n m ho _ _ iha ihb =>
      have hadmits : (d.associativity o).admits .left = true := by
        rw [ho]
        rfl
      have ha := (d.binaryLevel o).toNat_needsParens_le_self hadmits (a.level d)
      have hb := Level.toNat_needsParens_le_next (d.binaryLevel_ne_primary o) (d.associativity o)
        (b.level d) .right
      simp only [Expr.total, Expr.weakOperands, Expr.level, Level.shortfall_self]
      omega
  | @single o ts us a b n m ho _ _ iha ihb =>
      have ha := Level.toNat_needsParens_le_next (d.binaryLevel_ne_primary o) (d.associativity o)
        (a.level d) .left
      have hb := Level.toNat_needsParens_le_next (d.binaryLevel_ne_primary o) (d.associativity o)
        (b.level d) .right
      simp only [Expr.total, Expr.weakOperands, Expr.level, Level.shortfall_self]
      omega
  | @javascriptConditional ts us vs c t f n m k hd _ _ _ ihc iht ihf =>
      have hc := c.toNat_needsParensInConditional_left d
      have ht := t.toNat_needsParensInConditional_right d
      have hf := f.toNat_needsParensInConditional_right d
      simp only [Expr.total, Expr.weakOperands, Expr.level, Level.shortfall_self, if_pos hd]
      omega
  | @pythonConditional ts us vs c t f n m k hd _ _ _ iht ihc ihf =>
      have ht := t.toNat_needsParensInConditional_left d
      have hc := c.toNat_needsParensInConditional_left d
      have hf := f.toNat_needsParensInConditional_right d
      have hother : ¬d = .javascript := by
        rw [hd]
        decide
      simp only [Expr.total, Expr.weakOperands, Expr.level, Level.shortfall_self, if_neg hother]
      omega
  | @next l ts e n hl _ ih =>
      have := l.shortfall_le_next (e.level d)
      omega

/-! ### Opening parentheses

A pair of parentheses either groups or belongs to a call, so the pairs of a
derivation can be told from its tokens and its tree. -/

def openings (ts : List Token) : Nat :=
  ts.count (.symbol "(")

@[simp] theorem openings_nil : openings [] = 0 :=
  rfl

@[simp] theorem openings_cons (t : Token) (ts : List Token) :
    openings (t :: ts) = openings ts + if t = .symbol "(" then 1 else 0 := by
  simp [openings, List.count_cons]

@[simp] theorem openings_append (ts us : List Token) :
    openings (ts ++ us) = openings ts + openings us :=
  List.count_append

@[simp] theorem Dialect.binaryToken_ne_opening (d : Dialect) (o : BinaryOperator) :
    d.binaryToken o ≠ .symbol "(" := by
  cases d <;> cases o <;> decide

@[simp] theorem Dialect.unaryToken_ne_opening (d : Dialect) (o : UnaryOperator) :
    d.unaryToken o ≠ .symbol "(" := by
  cases d <;> cases o <;> decide

theorem openings_separated (parts : List (List Token)) :
    openings (separated parts) = (parts.map openings).sum := by
  induction parts with
  | nil => rfl
  | cons ts parts ih =>
      cases parts with
      | nil => simp [separated]
      | cons us parts =>
          have hsplit : separated (ts :: us :: parts) =
              ts ++ .symbol "," :: separated (us :: parts) := by
            simp [separated, List.intercalate_cons_cons]
          rw [hsplit, openings_append, openings_cons, ih]
          simp

theorem openings_items {items : List Derived}
    (h : ∀ i ∈ items, openings i.tokens = i.pairs + i.tree.total Expr.isCall) :
    openings (separated (items.map Derived.tokens)) =
      (items.map Derived.pairs).sum + Expr.totalAll Expr.isCall (items.map Derived.tree) := by
  rw [openings_separated, Expr.totalAll_eq_sum, List.map_map, List.map_map, ← List.sum_map_add]
  exact congrArg List.sum (List.map_congr_left h)

theorem openings_entries {entries : List (String × Derived)}
    (h : ∀ i ∈ entries, openings i.2.tokens = i.2.pairs + i.2.tree.total Expr.isCall) :
    openings (separated (entries.map fun i => .string i.1 :: .symbol ":" :: i.2.tokens)) =
      (entries.map fun i => i.2.pairs).sum +
        Expr.totalEntries Expr.isCall (entries.map fun i => (i.1, i.2.tree)) := by
  rw [openings_separated, Expr.totalEntries_eq_sum, List.map_map, List.map_map,
    ← List.sum_map_add]
  exact congrArg List.sum (List.map_congr_left (by simpa using h))

/-- Whatever the derivation, the pairs that group are those that no call in
the tree accounts for. -/
theorem Derivation.openings_eq {d : Dialect} {target : List Token → Prop} {l : Level}
    {ts : List Token} {e : Expr} {n : Nat} (h : Derivation d target l ts e n) :
    openings ts = n + e.total Expr.isCall := by
  induction h with
  | name h => rfl
  | constant h => rfl
  | number k => rfl
  | string s => rfl
  | group _ ih =>
      simp only [openings_cons, openings_append, openings_nil, ih, symbol.injEq, String.reduceEq,
        ↓reduceIte]
      omega
  | array items _ ih => simp [Expr.total, Expr.isCall, openings_items ih]
  | object entries _ ih => simp [Expr.total, Expr.isCall, openings_entries ih]
  | call items _ _ _ ihf ih =>
      simp only [openings_cons, openings_append, openings_nil, openings_items ih, ihf, symbol.injEq,
        String.reduceEq, ↓reduceIte, Expr.total, Expr.isCall]
      omega
  | member _ _ _ ih => simp [Expr.total, Expr.isCall, ih]
  | index _ _ _ ih ihkey =>
      simp only [openings_cons, openings_append, openings_nil, ih, ihkey, symbol.injEq,
        String.reduceEq, ↓reduceIte, Expr.total, Expr.isCall]
      omega
  | unary o _ ih => simp [Expr.total, Expr.isCall, ih]
  | chain o ho _ _ iha ihb =>
      simp only [openings_cons, openings_append, iha, ihb, Dialect.binaryToken_ne_opening,
        ↓reduceIte, Expr.total, Expr.isCall]
      omega
  | single o ho _ _ iha ihb =>
      simp only [openings_cons, openings_append, iha, ihb, Dialect.binaryToken_ne_opening,
        ↓reduceIte, Expr.total, Expr.isCall]
      omega
  | javascriptConditional hd _ _ _ ihc iht ihf =>
      simp only [openings_cons, openings_append, ihc, iht, ihf, symbol.injEq, String.reduceEq,
        ↓reduceIte, Expr.total, Expr.isCall]
      omega
  | pythonConditional hd _ _ _ iht ihc ihf =>
      simp only [openings_cons, openings_append, iht, ihc, ihf, reduceCtorEq, ↓reduceIte,
        Expr.total, Expr.isCall]
      omega
  | next hl _ ih => exact ih

/-! ### The pairs of a rendering -/

theorem Expr.level_fields (d : Dialect) {e : Expr} (h : e.level d = .primary)
    (parts : List (List Char)) :
    (parts.foldl (fun e part => .member e (String.ofList part)) e).level d = .primary := by
  induction parts generalizing e with
  | nil => exact h
  | cons part parts ih => exact ih rfl

theorem Expr.level_ofPath (d : Dialect) (parts : List (List Char)) :
    (Expr.ofPath parts).level d = .primary := by
  cases parts with
  | nil => rfl
  | cons part parts => exact level_fields d rfl parts

theorem Expr.level_asRead (d : Dialect) : ∀ e : Expr, e.asRead.level d = e.level d
  | .literal v => by
      cases v with
      | int i =>
          by_cases hi : i < 0
          · have hlevel : d.unaryLevel .negate = .unary := by cases d <;> rfl
            simp [asRead, hi, level, Literal.isNegative, hlevel]
          · simp [asRead, hi]
      | _ => rfl
  | .name path => level_ofPath d _
  | .unary _ _ => rfl
  | .binary _ _ _ => rfl
  | .conditional _ _ _ => rfl
  | .call _ _ => rfl
  | .member _ _ => rfl
  | .index _ _ => rfl
  | .array _ => rfl
  | .object _ => rfl
  | .hoisted _ e => level_asRead d e

theorem Expr.toNat_needsParensAsTarget (d : Dialect) : ∀ e : Expr,
    (e.needsParensAsTarget d).toNat =
      (Level.primary.needsParensAlone (e.level d)).toNat + e.isUnsigned.toNat
  | .literal v => by
      have hnumber : v.isNegative = true → v.isNumber = true := by
        cases v <;> simp [Literal.isNegative, Literal.isNumber]
      have hweak : Level.primary.needsParensAlone .unary = true := rfl
      have hstrong : Level.primary.needsParensAlone .primary = false := rfl
      rw [needsParensAsTarget, isNumber, isUnsigned, level]
      cases hnegative : v.isNegative with
      | true => simp [hnumber hnegative, hweak]
      | false => simp [hstrong]
  | .hoisted _ e => toNat_needsParensAsTarget d e
  | .name _ => rfl
  | .unary _ _ => by simp [needsParensAsTarget, isNumber, isUnsigned]
  | .binary _ _ _ => by simp [needsParensAsTarget, isNumber, isUnsigned]
  | .conditional _ _ _ => rfl
  | .call _ _ => rfl
  | .member _ _ => rfl
  | .index _ _ => rfl
  | .array _ => rfl
  | .object _ => rfl

theorem Expr.total_ofPath {d : Dialect} {weight : Expr → Nat}
    (hname : ∀ path, weight (.name path) = 0)
    (hmember : ∀ e field, e.level d = .primary → weight (.member e field) = 0)
    (parts : List (List Char)) : (Expr.ofPath parts).total weight = 0 := by
  cases parts with
  | nil => exact hname _
  | cons part parts =>
      rw [ofPath]
      induction parts using List.reverseRecOn with
      | nil => exact hname _
      | append_singleton parts last ih =>
          rw [List.foldl_append, List.foldl_cons, List.foldl_nil, total, ih,
            hmember _ _ (level_fields d rfl parts)]

theorem Expr.total_negated (d : Dialect) (k : Nat) :
    (Expr.unary .negate (.literal (.int k))).total (weakOperands d) = 0 := by
  have hk : ¬(k : Int) < 0 := by omega
  have hlevel : (d.unaryLevel .negate).needsParensAlone .primary = false := by
    cases d <;> rfl
  simp [total, weakOperands, level, Literal.isNegative, hk, hlevel]

mutual

/-- The pairs in a text are those that its operands need and those around unsigned
numbers. -/
theorem Expr.pairs_eq (d : Dialect) : ∀ e : Expr,
    e.pairs d = e.asRead.total (weakOperands d) + e.total unsignedTarget
  | .literal v => by
      cases v with
      | int i =>
          by_cases hi : i < 0
          · rw [pairs, asRead, if_pos hi, total_negated]
            rfl
          · rw [pairs, asRead, if_neg hi]
            rfl
      | _ => rfl
  | .name path => by
      have hweak : (Expr.ofPath (Settings.splitDots path.toList)).total (weakOperands d) = 0 :=
        total_ofPath (fun _ => rfl) (fun e _ he => by rw [weakOperands, he]; rfl) _
      rw [pairs, asRead, hweak]
      rfl
  | .unary o e => by
      have he := pairs_eq d e
      simp only [pairs, asRead, total, weakOperands, unsignedTarget, level_asRead, he]
      omega
  | .binary o l r => by
      have hl := pairs_eq d l
      have hr := pairs_eq d r
      simp only [pairs, asRead, total, weakOperands, unsignedTarget, level_asRead, hl, hr]
      omega
  | .conditional c t f => by
      have hc := pairs_eq d c
      have ht := pairs_eq d t
      have hf := pairs_eq d f
      simp only [pairs, asRead, total, weakOperands, unsignedTarget, needsParensInConditional,
        level_asRead, hc, ht, hf]
      omega
  | .call f args => by
      have hf := pairs_eq d f
      have hargs := pairsAll_eq d args
      simp only [pairs, asRead, total, weakOperands, unsignedTarget, level_asRead,
        toNat_needsParensAsTarget, hf, hargs]
      omega
  | .member e field => by
      have he := pairs_eq d e
      simp only [pairs, asRead, total, weakOperands, unsignedTarget, level_asRead,
        toNat_needsParensAsTarget, he]
      omega
  | .index e key => by
      have he := pairs_eq d e
      have hkey := pairs_eq d key
      simp only [pairs, asRead, total, weakOperands, unsignedTarget, level_asRead,
        toNat_needsParensAsTarget, he, hkey]
      omega
  | .array es => by simp [pairs, asRead, total, weakOperands, unsignedTarget, pairsAll_eq d es]
  | .object entries => by
      simp [pairs, asRead, total, weakOperands, unsignedTarget, pairsEntries_eq d entries]
  | .hoisted _ e => pairs_eq d e

theorem Expr.pairsAll_eq (d : Dialect) : ∀ es : List Expr,
    pairsAll d es = totalAll (weakOperands d) (asReadAll es) + totalAll unsignedTarget es
  | [] => rfl
  | e :: es => by
      have he := pairs_eq d e
      have hes := pairsAll_eq d es
      simp only [pairsAll, asReadAll, totalAll, he, hes]
      omega

theorem Expr.pairsEntries_eq (d : Dialect) : ∀ es : List (String × Expr),
    pairsEntries d es =
      totalEntries (weakOperands d) (asReadEntries es) + totalEntries unsignedTarget es
  | [] => rfl
  | (_, e) :: es => by
      have he := pairs_eq d e
      have hes := pairsEntries_eq d es
      simp only [pairsEntries, asReadEntries, totalEntries, he, hes]
      omega

end

/-- The text of a readable expression has a derivation, in which the number of
pairs is settled. Apart from the pairs around unsigned numbers that are called
or have a field or an index taken, every derivation of the same tree has at
least as many, even if it may call a bare number or take a field or an index of
it. -/
theorem Expr.render_has_fewest_parentheses (d : Dialect) (e : Expr) (h : e.readable d) :
    ∃ ts pairs, tokens? (e.render d).toList = some ts ∧
      (∀ n, Derivation d (fun _ => True) .conditional ts e.asRead n ↔
        n = pairs + e.total unsignedTarget) ∧
      ∀ us n, Derivation d (fun _ => True) .conditional us e.asRead n → pairs ≤ n := by
  have htext := Expr.spells_render d e h [] detached_nil
  have hown : Derivation d (fun _ => True) .conditional (e.tokens d) e.asRead (e.pairs d) :=
    (e.readAs_asRead d h).conditional.mono fun _ _ => trivial
  have hcount : ∀ {n}, Derivation d (fun _ => True) .conditional (e.tokens d) e.asRead n →
      n = e.pairs d := by
    intro n hn
    have := hn.openings_eq
    have := hown.openings_eq
    omega
  refine ⟨e.tokens d, e.asRead.total (weakOperands d), by simpa using htext, ?_,
    fun us n hn => Nat.le_of_add_right_le hn.weakOperands_le⟩
  intro n
  rw [← e.pairs_eq d]
  constructor
  · exact hcount
  · rintro rfl
    exact hown

/-- Differences in a product, with a dotted path and a negative number in them,
times the result of a call: of the three pairs that group, the one around the
number is not counted. -/
theorem Expr.render_has_fewest_parentheses_product :
    let e : Expr := .binary .multiply
      (.binary .subtract (.name "a")
        (.binary .subtract (.name "b.c") (.literal (.int (-1)))))
      (.call (.member (.literal (.int 2)) "x") [])
    e.render .javascript = "(a - (b.c - -1)) * (2).x()" ∧ e.readable .javascript ∧
      e.total unsignedTarget = 1 ∧
      ∃ ts pairs, tokens? (e.render .javascript).toList = some ts ∧
        (∀ n, Derivation .javascript (fun _ => True) .conditional ts e.asRead n ↔
          n = pairs + e.total unsignedTarget) ∧
        ∀ us n, Derivation .javascript (fun _ => True) .conditional us e.asRead n →
          pairs ≤ n := by
  intro e
  have hreadable : e.readable .javascript := by decide
  exact ⟨by decide, hreadable, by decide,
    Expr.render_has_fewest_parentheses .javascript e hreadable⟩

end TargetCode
