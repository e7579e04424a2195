import TargetCode.Proofs.Grammar

/-!
The grammar of expressions is unambiguous: no list of tokens has two trees.

It is proved by a parser that never has to choose. `parse` reads an
expression of one level from the front of the tokens, and `resume` goes on
after an operand. Left recursion becomes a loop: after the tokens of an
operand the parser is where `resume` starts with that operand, whatever
follows, unless what follows belongs to a stronger level. Whatever the grammar
derives is therefore what the parser finds.
-/

namespace TargetCode

def BinaryOperator.all : List BinaryOperator :=
  [.or, .and, .equal, .notEqual, .less, .lessEqual, .greater, .greaterEqual, .elementOf, .add,
   .subtract, .multiply, .divide, .modulo]

namespace Dialect

/-- The operator between operands that a token is. -/
def binaryOf? (d : Dialect) (t : Token) : Option BinaryOperator :=
  BinaryOperator.all.find? fun o => d.binaryToken o = t

/-- The operator of level `l` before an operand that a token is. -/
def unaryAt? (d : Dialect) (l : Level) (t : Token) : Option UnaryOperator :=
  [UnaryOperator.not, .negate].find? fun o => d.unaryToken o = t ∧ d.unaryLevel o = l

/-- The first of the two tokens inside a conditional. -/
def firstMark : Dialect → Token
  | .javascript => .symbol "?"
  | .python => .word "if"

/-- The second of the two tokens inside a conditional. -/
def secondMark : Dialect → Token
  | .javascript => .symbol ":"
  | .python => .word "else"

/-- The level of what stands between the two tokens. -/
def middleLevel : Dialect → Level
  | .javascript => .conditional
  | .python => .logicalOr

/-- A conditional from its parts in the order of the text. -/
def conditionalOf : Dialect → Expr → Expr → Expr → Expr
  | .javascript, c, t, f => .conditional c t f
  | .python, t, c, f => .conditional c t f

/-- The level at which a token goes on after an operand. -/
def continues? (d : Dialect) (t : Token) : Option Level :=
  match d.binaryOf? t with
  | some o => some (d.binaryLevel o)
  | none =>
    if t = d.firstMark then some .conditional
    else if t = .symbol "(" ∨ t = .symbol "[" ∨ t = .symbol "." then some .primary
    else none

@[simp] theorem binaryOf?_binaryToken (d : Dialect) (o : BinaryOperator) :
    d.binaryOf? (d.binaryToken o) = some o := by
  cases d <;> cases o <;> decide

@[simp] theorem continues?_binaryToken (d : Dialect) (o : BinaryOperator) :
    d.continues? (d.binaryToken o) = some (d.binaryLevel o) := by
  simp [continues?]

@[simp] theorem unaryAt?_unaryToken (d : Dialect) (o : UnaryOperator) :
    d.unaryAt? (d.unaryLevel o) (d.unaryToken o) = some o := by
  cases d <;> cases o <;> decide

@[simp] theorem binaryOf?_firstMark (d : Dialect) : d.binaryOf? d.firstMark = none := by
  cases d <;> decide

@[simp] theorem continues?_firstMark (d : Dialect) :
    d.continues? d.firstMark = some .conditional := by
  simp [continues?]

@[simp] theorem continues?_secondMark (d : Dialect) : d.continues? d.secondMark = none := by
  cases d <;> decide

/-- The symbols that go on after an operand of the strongest level. -/
theorem continues?_opening (d : Dialect) {s : String} (hs : s ∈ ["(", "[", "."]) :
    d.binaryOf? (.symbol s) = none ∧ d.continues? (.symbol s) = some .primary ∧
      .symbol s ≠ d.firstMark := by
  revert s
  cases d <;> decide

/-- The symbols that end an expression. -/
theorem continues?_closing (d : Dialect) {s : String} (hs : s ∈ [")", "]", "\x7d", ","]) :
    d.continues? (.symbol s) = none := by
  revert s
  cases d <;> decide

theorem binaryLevel_ne_primary (d : Dialect) (o : BinaryOperator) :
    d.binaryLevel o ≠ .primary := by
  cases d <;> cases o <;> decide

theorem unaryLevel_ne_primary (d : Dialect) (o : UnaryOperator) :
    d.unaryLevel o ≠ .primary := by
  cases d <;> cases o <;> decide

theorem mem_keywords_of_constant? {d : Dialect} {w : String} {v : Literal}
    (h : d.constant? w = some v) : w ∈ d.keywords := by
  cases d <;> simp only [constant?] at h <;> split_ifs at h <;> subst w <;> decide

end Dialect

/-! ### The parser -/

namespace Parser

/-- The key of an entry, and what follows its colon. Items without keys are
given the empty one. -/
def keyOf? (keyed : Bool) (ts : List Token) : Option (String × List Token) :=
  match keyed, ts with
  | false, ts => some ("", ts)
  | true, .string key :: .symbol mark :: ts => if mark = ":" then some (key, ts) else none
  | true, _ => none

/-- The name of a field, and what follows it. -/
def fieldOf? (d : Dialect) (ts : List Token) : Option (String × List Token) :=
  match ts with
  | .word field :: ts => if field ∈ d.keywords then none else some (field, ts)
  | _ => none

/- The comparisons of lengths below always succeed where they are reached.
They are there for termination: what is left after a part has been read is
shorter than what was there before. -/
mutual

/-- Reads an expression of level `l`. -/
def parse (d : Dialect) (l : Level) (ts : List Token) : Option (Expr × List Token) :=
  match ts with
  | [] => none
  | t :: rest =>
    if _hl : l = .primary then parsePrimary d t rest
    else
      match d.unaryAt? l t with
      | some o => (parse d l rest).map fun (e, rest) => (.unary o e, rest)
      | none =>
        match parse d l.next (t :: rest) with
        | none => none
        | some (e, rest') => if rest'.length ≤ rest.length then resume d l e rest' else none
termination_by (ts.length, 11 - l.rank)
decreasing_by
  all_goals simp_wf
  · subst _hl; right; decide
  · left; omega
  · right
    rw [Level.rank_next _hl]
    cases l <;> simp [Level.rank]
  · left; omega

/-- Reads an expression of the strongest level that starts with `t`. -/
def parsePrimary (d : Dialect) (t : Token) (rest : List Token) : Option (Expr × List Token) :=
  match t with
  | .number n => some (.literal (.int n), rest)
  | .string s => resume d .primary (.literal (.str s)) rest
  | .word w =>
    match d.constant? w with
    | some v => resume d .primary (.literal v) rest
    | none => if w ∈ d.keywords then none else resume d .primary (.name w) rest
  | .symbol s =>
    if s = "(" then
      match parse d .conditional rest with
      | some (e, t :: rest') =>
        if t = .symbol ")" ∧ rest'.length ≤ rest.length then resume d .primary e rest' else none
      | _ => none
    else if s = "[" then
      match parseItems d false "]" rest with
      | some (items, rest') =>
        if rest'.length ≤ rest.length then
          resume d .primary (.array (items.map fun i => i.2)) rest'
        else none
      | none => none
    else if s = "\x7b" then
      match parseItems d true "\x7d" rest with
      | some (items, rest') =>
        if rest'.length ≤ rest.length then resume d .primary (.object items) rest' else none
      | none => none
    else none
termination_by (rest.length + 1, 0)

/-- Goes on after an operand of level `l`, as far as that level reaches. -/
def resume (d : Dialect) (l : Level) (e : Expr) (ts : List Token) : Option (Expr × List Token) :=
  match ts with
  | [] => some (e, [])
  | t :: rest =>
    if d.continues? t = some l then
      match d.binaryOf? t with
      | some o =>
        match parse d l.next rest with
        | none => none
        | some (b, rest') =>
          if d.associativity o ≠ .left then some (.binary o e b, rest')
          else if rest'.length ≤ rest.length then resume d l (.binary o e b) rest'
          else none
      | none =>
        if t = d.firstMark then
          match parse d d.middleLevel rest with
          | some (m, t :: rest') =>
            if t = d.secondMark ∧ rest'.length ≤ rest.length then
              (parse d .conditional rest').map fun (f, rest) => (d.conditionalOf e m f, rest)
            else none
          | _ => none
        else if t = .symbol "(" then
          match parseItems d false ")" rest with
          | some (items, rest') =>
            if rest'.length ≤ rest.length then
              resume d .primary (.call e (items.map fun i => i.2)) rest'
            else none
          | none => none
        else if t = .symbol "[" then
          match parse d .conditional rest with
          | some (key, t :: rest') =>
            if t = .symbol "]" ∧ rest'.length ≤ rest.length then
              resume d .primary (.index e key) rest'
            else none
          | _ => none
        else
          match fieldOf? d rest with
          | some (field, rest') =>
            if rest'.length ≤ rest.length then resume d .primary (.member e field) rest' else none
          | none => none
    else some (e, t :: rest)
termination_by (ts.length, 0)

/-- Reads items up to the closing bracket. -/
def parseItems (d : Dialect) (keyed : Bool) (close : String) (ts : List Token) :
    Option (List (String × Expr) × List Token) :=
  match ts with
  | [] => none
  | t :: rest =>
    if t = .symbol close then some ([], rest) else parseMore d keyed close (t :: rest)
termination_by (ts.length, 13)

/-- Reads at least one item, and then up to the closing bracket. -/
def parseMore (d : Dialect) (keyed : Bool) (close : String) (ts : List Token) :
    Option (List (String × Expr) × List Token) :=
  match keyOf? keyed ts with
  | none => none
  | some (key, us) =>
    if us.length ≤ ts.length then
      match parse d .conditional us with
      | some (e, t :: rest) =>
        if t = .symbol close then some ([(key, e)], rest)
        else if t = .symbol "," ∧ rest.length < ts.length then
          (parseMore d keyed close rest).map fun (items, rest) => ((key, e) :: items, rest)
        else none
      | _ => none
    else none
termination_by (ts.length, 12)
decreasing_by
  · rename_i hle
    rcases Nat.lt_or_eq_of_le hle with h | h
    · left; exact h
    · rw [h]; right; decide
  · left; omega

end

theorem resume_stop {d : Dialect} {l : Level} {ts : List Token} (e : Expr)
    (h : ∀ t ∈ ts.head?, d.continues? t ≠ some l) : resume d l e ts = some (e, ts) := by
  cases ts with
  | nil => rw [resume]
  | cons t ts => rw [resume, if_neg (h t (by simp))]

theorem resume_chain {d : Dialect} {o : BinaryOperator} {ts rest : List Token} (a : Expr)
    {b : Expr} (ho : d.associativity o = .left)
    (hb : parse d (d.binaryLevel o).next ts = some (b, rest)) (hlen : rest.length ≤ ts.length) :
    resume d (d.binaryLevel o) a (d.binaryToken o :: ts) =
      resume d (d.binaryLevel o) (.binary o a b) rest := by
  rw [resume]
  simp [hb, ho, hlen]

theorem resume_single {d : Dialect} {o : BinaryOperator} {ts rest : List Token} (a : Expr)
    {b : Expr} (ho : d.associativity o = .nonAssociative)
    (hb : parse d (d.binaryLevel o).next ts = some (b, rest)) :
    resume d (d.binaryLevel o) a (d.binaryToken o :: ts) = some (.binary o a b, rest) := by
  rw [resume]
  simp [hb, ho]

theorem resume_conditional {d : Dialect} {ts us rest : List Token} (a : Expr) {m f : Expr}
    (hm : parse d d.middleLevel ts = some (m, d.secondMark :: us))
    (hlen : us.length ≤ ts.length) (hf : parse d .conditional us = some (f, rest)) :
    resume d .conditional a (d.firstMark :: ts) = some (d.conditionalOf a m f, rest) := by
  rw [resume]
  simp [hm, hf, hlen]

theorem resume_call {d : Dialect} {ts rest : List Token} (e : Expr) {items : List (String × Expr)}
    (h : parseItems d false ")" ts = some (items, rest)) (hlen : rest.length ≤ ts.length) :
    resume d .primary e (.symbol "(" :: ts) =
      resume d .primary (.call e (items.map fun i => i.2)) rest := by
  obtain ⟨hb, hc, hm⟩ := d.continues?_opening (s := "(") (by decide)
  rw [resume]
  simp [hb, hc, hm, h, hlen]

theorem resume_index {d : Dialect} {ts rest : List Token} (e : Expr) {key : Expr}
    (h : parse d .conditional ts = some (key, .symbol "]" :: rest))
    (hlen : rest.length ≤ ts.length) :
    resume d .primary e (.symbol "[" :: ts) = resume d .primary (.index e key) rest := by
  obtain ⟨hb, hc, hm⟩ := d.continues?_opening (s := "[") (by decide)
  rw [resume]
  simp [hb, hc, hm, h, hlen]

theorem resume_member {d : Dialect} {field : String} {rest : List Token} (e : Expr)
    (h : field ∉ d.keywords) :
    resume d .primary e (.symbol "." :: .word field :: rest) =
      resume d .primary (.member e field) rest := by
  obtain ⟨hb, hc, hm⟩ := d.continues?_opening (s := ".") (by decide)
  rw [resume]
  simp [hb, hc, hm, fieldOf?, h]

theorem parse_primary (d : Dialect) (t : Token) (rest : List Token) :
    parse d .primary (t :: rest) = parsePrimary d t rest := by
  rw [parse, dif_pos rfl]

theorem parse_unary (d : Dialect) (o : UnaryOperator) (ts : List Token) :
    parse d (d.unaryLevel o) (d.unaryToken o :: ts) =
      (parse d (d.unaryLevel o) ts).map fun (e, rest) => (.unary o e, rest) := by
  rw [parse, dif_neg (d.unaryLevel_ne_primary o)]
  simp

theorem parse_next {d : Dialect} {l : Level} {t : Token} {ts rest : List Token} {e : Expr}
    (hl : l ≠ .primary) (ht : d.unaryAt? l t = none)
    (h : parse d l.next (t :: ts) = some (e, rest)) (hlen : rest.length ≤ ts.length) :
    parse d l (t :: ts) = resume d l e rest := by
  rw [parse, dif_neg hl]
  simp [ht, h, hlen]

/-! ### The first token

The first token of an expression is never a closing bracket, and it is an
operator only if that operator is at least as strong as the expression. So
the parser never takes an operator that belongs to an inner expression. -/

/-- Whether an expression of level `l` may start with a token. -/
structure Opens (d : Dialect) (l : Level) (t : Token) : Prop where
  not_closing : ∀ s ∈ [")", "]", "\x7d"], t ≠ .symbol s
  not_weaker : ∀ o, t = d.unaryToken o → l.rank ≤ (d.unaryLevel o).rank

theorem Opens.mono {d : Dialect} {l l' : Level} {t : Token} (h : Opens d l t)
    (hl : l'.rank ≤ l.rank) : Opens d l' t where
  not_closing := h.not_closing
  not_weaker o ho := hl.trans (h.not_weaker o ho)

theorem opens_word {d : Dialect} {l : Level} {w : String} (h : .word w ≠ d.unaryToken .not) :
    Opens d l (.word w) where
  not_closing := by simp
  not_weaker o ho := by
    cases o with
    | not => exact absurd ho h
    | negate => cases d <;> simp [Dialect.unaryToken] at ho

theorem opens_symbol {d : Dialect} {l : Level} {s : String} (hs : s ∈ ["(", "[", "\x7b"]) :
    Opens d l (.symbol s) where
  not_closing := by
    revert s
    decide
  not_weaker o ho := by
    have hne : ∀ s ∈ ["(", "[", "\x7b"], ∀ o, Token.symbol s ≠ d.unaryToken o := by
      cases d <;> (intro s hs o; cases o <;> revert s <;> decide)
    exact absurd ho (hne s hs o)

theorem opens_unaryToken (d : Dialect) (o : UnaryOperator) :
    Opens d (d.unaryLevel o) (d.unaryToken o) where
  not_closing := by cases d <;> cases o <;> decide
  not_weaker o' ho := by
    cases d <;> cases o <;> cases o' <;> first | rfl | exact absurd ho (by decide)

theorem exists_opens_of_derivation {d : Dialect} {target : List Token → Prop} {l : Level}
    {ts : List Token} {e : Expr} {n : Nat} (h : Derivation d target l ts e n) :
    ∃ t us, ts = t :: us ∧ Opens d l t := by
  induction h with
  | name h =>
      refine ⟨_, _, rfl, opens_word ?_⟩
      rintro hw
      cases d <;> simp_all [Dialect.unaryToken, Dialect.keywords]
  | constant h =>
      refine ⟨_, _, rfl, opens_word ?_⟩
      rintro hw
      cases d <;> simp_all [Dialect.unaryToken, Dialect.constant?]
  | number k =>
      exact ⟨_, _, rfl, by simp, fun o ho => absurd ho.symm (d.unaryToken_ne_number o k)⟩
  | string s =>
      exact ⟨_, _, rfl, by simp, fun o ho => absurd ho.symm (d.unaryToken_ne_string o s)⟩
  | group h ih => exact ⟨_, _, rfl, opens_symbol (by simp)⟩
  | array items h ih => exact ⟨_, _, rfl, opens_symbol (by simp)⟩
  | object entries h ih => exact ⟨_, _, rfl, opens_symbol (by simp)⟩
  | unary o h ih => exact ⟨_, _, rfl, opens_unaryToken d o⟩
  | call items hf hts h ih =>
      obtain ⟨t, us, rfl, ht⟩ := ih
      exact ⟨t, _, rfl, ht⟩
  | member he hts hfield ih =>
      obtain ⟨t, us, rfl, ht⟩ := ih
      exact ⟨t, _, rfl, ht⟩
  | index he hts hkey ih =>
      obtain ⟨t, us, rfl, ht⟩ := ih
      exact ⟨t, _, rfl, ht⟩
  | chain o ho ha hb ih =>
      obtain ⟨t, us, rfl, ht⟩ := ih
      exact ⟨t, _, rfl, ht⟩
  | single o ho ha hb ih =>
      obtain ⟨t, us, rfl, ht⟩ := ih
      have := Level.rank_next (d.binaryLevel_ne_primary o)
      exact ⟨t, _, rfl, ht.mono (by omega)⟩
  | javascriptConditional hd hfirst hmiddle hlast ih =>
      obtain ⟨t, us, rfl, ht⟩ := ih
      exact ⟨t, _, rfl, ht.mono (by decide)⟩
  | pythonConditional hd hfirst hmiddle hlast ih =>
      obtain ⟨t, us, rfl, ht⟩ := ih
      exact ⟨t, _, rfl, ht.mono (by decide)⟩
  | next hl h ih =>
      obtain ⟨t, us, rfl, ht⟩ := ih
      have := Level.rank_next hl
      exact ⟨t, us, rfl, ht.mono (by omega)⟩

/-! ### What may follow an expression -/

/-- A level at which the grammar is left-recursive, so that an expression of
the level may be followed by a token that goes on at the same level. -/
def Chains (d : Dialect) (l : Level) : Prop :=
  l = .primary ∨ ∃ o, d.binaryLevel o = l ∧ d.associativity o = .left

/-- Nothing in `rest` belongs to an expression of level `l` before it. -/
def Stops (d : Dialect) (l : Level) (rest : List Token) : Prop :=
  ∀ t ∈ rest.head?, ∀ l', d.continues? t = some l' → l'.rank < l.rank

/-- Nothing in `rest` belongs to the tokens `ts` of level `l` before it,
unless it goes on with them as a whole. -/
def Follows (d : Dialect) (l : Level) (ts rest : List Token) : Prop :=
  ∀ t ∈ rest.head?, ∀ l', d.continues? t = some l' →
    l'.rank < l.rank ∨ (l' = l ∧ Chains d l ∧ (l = .primary → ¬BareNumber ts))

theorem Stops.follows {d : Dialect} {l : Level} {ts rest : List Token} (h : Stops d l rest) :
    Follows d l ts rest :=
  fun t ht l' hl' => .inl (h t ht l' hl')

theorem Stops.resume_eq {d : Dialect} {l : Level} {rest : List Token} (h : Stops d l rest)
    (e : Expr) : resume d l e rest = some (e, rest) := by
  apply resume_stop
  intro t ht hl
  exact absurd (h t ht l hl) (lt_irrefl _)

/-- The parser finds the tree `e` for the tokens `ts`. -/
def Finds (d : Dialect) (l : Level) (ts : List Token) (e : Expr) : Prop :=
  ∀ rest, Follows d l ts rest → parse d l (ts ++ rest) = resume d l e rest

theorem Finds.parse_eq {d : Dialect} {l : Level} {ts : List Token} {e : Expr}
    (h : Finds d l ts e) (rest : List Token) (hrest : Stops d l rest) :
    parse d l (ts ++ rest) = some (e, rest) := by
  rw [h rest hrest.follows, hrest.resume_eq]

theorem stops_cons {d : Dialect} {l l' : Level} {t : Token} {rest : List Token}
    (ht : d.continues? t = some l') (hl : l'.rank < l.rank) : Stops d l (t :: rest) := by
  intro t' ht' l'' hl''
  obtain rfl : t = t' := by simpa using ht'
  rw [ht, Option.some.injEq] at hl''
  exact hl'' ▸ hl

theorem stops_cons_of_none {d : Dialect} {l : Level} {t : Token} {rest : List Token}
    (ht : d.continues? t = none) : Stops d l (t :: rest) := by
  intro t' ht' l' hl'
  obtain rfl : t = t' := by simpa using ht'
  simp [ht] at hl'

/-- The tokens of an item, with its key if it has one. -/
def entry (keyed : Bool) (item : String × Derived) : List Token :=
  if keyed then .string item.1 :: .symbol ":" :: item.2.tokens else item.2.tokens

theorem keyOf?_entry {keyed : Bool} {item : String × Derived}
    (hkey : keyed = false → item.1 = "") (rest : List Token) :
    keyOf? keyed (entry keyed item ++ rest) = some (item.1, item.2.tokens ++ rest) := by
  cases keyed with
  | false => simp [entry, keyOf?, hkey rfl]
  | true => simp [entry, keyOf?]

theorem length_le_length_entry (keyed : Bool) (item : String × Derived) :
    item.2.tokens.length ≤ (entry keyed item).length := by
  cases keyed <;> simp [entry, Nat.le_add_right_of_le]

theorem parseMore_eq {d : Dialect} {keyed : Bool} {close : String} (rest : List Token)
    (hclose : close ∈ [")", "]", "\x7d"]) (item : String × Derived)
    (items : List (String × Derived))
    (hkey : ∀ i ∈ item :: items, keyed = false → i.1 = "")
    (h : ∀ i ∈ item :: items, Finds d .conditional i.2.tokens i.2.tree) :
    parseMore d keyed close
        (separated ((item :: items).map (entry keyed)) ++ .symbol close :: rest) =
      some ((item :: items).map fun i => (i.1, i.2.tree), rest) := by
  have hend : d.continues? (.symbol close) = none :=
    d.continues?_closing (List.mem_append_left [","] hclose)
  induction items generalizing item with
  | nil =>
      have hparse := (h item (by simp)).parse_eq (.symbol close :: rest) (stops_cons_of_none hend)
      rw [parseMore]
      simp [separated, keyOf?_entry (hkey item (by simp)), length_le_length_entry, hparse]
  | cons item' items ih =>
      have hcomma : d.continues? (.symbol ",") = none := d.continues?_closing (by simp)
      have hne : ("," : String) ≠ close := by
        rintro rfl
        exact absurd hclose (by decide)
      have hrest := ih item' (fun i hi => hkey i (by simp [hi])) (fun i hi => h i (by simp [hi]))
      set more := separated ((item' :: items).map (entry keyed)) ++ .symbol close :: rest with hmore
      have hsplit : separated ((item :: item' :: items).map (entry keyed)) ++
          .symbol close :: rest = entry keyed item ++ .symbol "," :: more := by
        simp [hmore, separated, List.intercalate_cons_cons]
      have hparse := (h item (by simp)).parse_eq (.symbol "," :: more) (stops_cons_of_none hcomma)
      rw [hsplit, parseMore]
      simp [keyOf?_entry (hkey item (by simp)), length_le_length_entry, hparse, hne, hrest]
      omega

theorem parseItems_eq {d : Dialect} {target : List Token → Prop} (keyed : Bool) {close : String}
    (rest : List Token)
    (hclose : close ∈ [")", "]", "\x7d"]) (items : List (String × Derived))
    (hkey : ∀ i ∈ items, keyed = false → i.1 = "")
    (hopen : ∀ i ∈ items, Derivation d target .conditional i.2.tokens i.2.tree i.2.pairs)
    (h : ∀ i ∈ items, Finds d .conditional i.2.tokens i.2.tree) :
    parseItems d keyed close (separated (items.map (entry keyed)) ++ .symbol close :: rest) =
      some (items.map fun i => (i.1, i.2.tree), rest) := by
  cases items with
  | nil =>
      rw [show separated (([] : List (String × Derived)).map (entry keyed)) = [] from rfl,
        List.nil_append, parseItems]
      simp
  | cons item items =>
      have hmore := parseMore_eq rest hclose item items hkey h
      -- The first token of an item closes no bracket, so the list is not taken
      -- for an empty one.
      have hfirst : ∃ t us, entry keyed item = t :: us ∧ t ≠ .symbol close := by
        cases keyed with
        | false =>
            obtain ⟨t, us, hts, ht⟩ := exists_opens_of_derivation (hopen item (by simp))
            exact ⟨t, us, hts, ht.not_closing close hclose⟩
        | true => exact ⟨_, _, rfl, by simp⟩
      obtain ⟨t, us, hts, ht⟩ := hfirst
      have hhead : ∃ vs, separated ((item :: items).map (entry keyed)) ++ .symbol close :: rest =
          t :: vs := by
        cases items <;> simp [separated, hts, List.intercalate_cons_cons]
      obtain ⟨vs, hvs⟩ := hhead
      rw [hvs] at hmore ⊢
      rw [parseItems, if_neg ht, hmore]

/-! ### The parser finds what the grammar derives -/

/-- At a level whose operators do not group, nothing chains. -/
theorem not_chains_of_nonAssociative {d : Dialect} {o : BinaryOperator}
    (ho : d.associativity o = .nonAssociative) : ¬Chains d (d.binaryLevel o) := by
  rintro (h | ⟨o', hlevel, hleft⟩)
  · exact d.binaryLevel_ne_primary o h
  · cases d <;> cases o <;> cases o' <;> simp_all [Dialect.associativity, Dialect.binaryLevel,
      BinaryOperator.compares]

theorem not_chains_unaryLevel (d : Dialect) (o : UnaryOperator) : ¬Chains d (d.unaryLevel o) := by
  rintro (h | ⟨o', hlevel, -⟩)
  · exact d.unaryLevel_ne_primary o h
  · cases d <;> cases o <;> cases o' <;> simp_all [Dialect.unaryLevel, Dialect.binaryLevel]

theorem not_chains_conditional (d : Dialect) : ¬Chains d .conditional := by
  rintro (h | ⟨o, hlevel, -⟩)
  · cases h
  · cases d <;> cases o <;> simp_all [Dialect.binaryLevel]

theorem Follows.stops {d : Dialect} {l : Level} {ts rest : List Token} (h : Follows d l ts rest)
    (hl : ¬Chains d l) : Stops d l rest := by
  intro t ht l' hl'
  rcases h t ht l' hl' with hlt | ⟨-, hchain, -⟩
  · exact hlt
  · exact absurd hchain hl

theorem Follows.stops_next {d : Dialect} {l : Level} {ts rest : List Token}
    (h : Follows d l ts rest) (hl : l ≠ .primary) : Stops d l.next rest := by
  intro t ht l' hl'
  rw [Level.rank_next hl]
  rcases h t ht l' hl' with hlt | ⟨rfl, -, -⟩
  · omega
  · omega

theorem follows_cons {d : Dialect} {l : Level} {ts rest : List Token} {t : Token}
    (ht : d.continues? t = some l) (hl : Chains d l) (hts : l = .primary → ¬BareNumber ts) :
    Follows d l ts (t :: rest) := by
  intro t' ht' l' hl'
  obtain rfl : t = t' := by simpa using ht'
  rw [ht, Option.some.injEq] at hl'
  exact .inr ⟨hl'.symm, hl, hts⟩

theorem unaryAt?_eq_none {d : Dialect} {l : Level} {t : Token} (hl : l ≠ .primary)
    (ht : Opens d l.next t) : d.unaryAt? l t = none := by
  simp only [Dialect.unaryAt?, List.find?_eq_none, decide_eq_true_eq, not_and]
  intro o _ ho hlevel
  have := ht.not_weaker o ho.symm
  rw [Level.rank_next hl, hlevel] at this
  omega

theorem parseItems_unkeyed {d : Dialect} {target : List Token → Prop} {close : String}
    (rest : List Token) (hclose : close ∈ [")", "]", "\x7d"]) (items : List Derived)
    (hopen : ∀ i ∈ items, Derivation d target .conditional i.tokens i.tree i.pairs)
    (h : ∀ i ∈ items, Finds d .conditional i.tokens i.tree) :
    parseItems d false close (separated (items.map Derived.tokens) ++ .symbol close :: rest) =
      some (items.map fun i => ("", i.tree), rest) := by
  have := parseItems_eq false rest hclose (items.map fun i => ("", i))
    (by simp only [List.forall_mem_map]; simp) (by simpa only [List.forall_mem_map] using hopen)
    (by simpa only [List.forall_mem_map] using h)
  simpa [Function.comp_def, entry] using this

/-- A conditional, with its parts in the order of the text. -/
theorem finds_conditional {d : Dialect} {target : List Token → Prop} {ts us vs : List Token}
    {a m f : Expr} {n : Nat} (ha : Derivation d target .logicalOr ts a n)
    (iha : Finds d .logicalOr ts a)
    (ihm : Finds d d.middleLevel us m) (ihf : Finds d .conditional vs f) :
    Finds d .conditional (ts ++ d.firstMark :: (us ++ d.secondMark :: vs))
      (d.conditionalOf a m f) := by
  intro rest hrest
  have hstop := hrest.stops (not_chains_conditional d)
  have hm := ihm.parse_eq (d.secondMark :: (vs ++ rest))
    (stops_cons_of_none d.continues?_secondMark)
  have hleft := iha.parse_eq (d.firstMark :: (us ++ d.secondMark :: (vs ++ rest)))
    (stops_cons d.continues?_firstMark (by decide))
  obtain ⟨t, ts, rfl, ht⟩ := exists_opens_of_derivation ha
  have hl : Level.conditional ≠ .primary := by decide
  simp only [List.append_assoc, List.cons_append] at hleft ⊢
  rw [parse_next hl (unaryAt?_eq_none hl ht) hleft (by simp),
    resume_conditional _ hm (by simp; omega) (ihf.parse_eq rest hstop), hstop.resume_eq]

theorem finds_of_derivation {d : Dialect} {l : Level} {ts : List Token} {e : Expr} {n : Nat}
    (h : Derivation d (¬BareNumber ·) l ts e n) : Finds d l ts e := by
  -- By induction on the derivation, for every `rest` at once: the tokens of an
  -- operand are followed by the other tokens of its production.
  induction h with
  | @name w h =>
      intro rest _
      have : d.constant? w = none := by
        by_contra hne
        obtain ⟨v, hv⟩ := Option.ne_none_iff_exists'.1 hne
        exact h (Dialect.mem_keywords_of_constant? hv)
      rw [List.singleton_append, parse_primary, parsePrimary]
      simp [this, h]
  | constant h =>
      intro rest _
      rw [List.singleton_append, parse_primary, parsePrimary]
      simp [h]
  | number k =>
      intro rest hrest
      -- The loop does not go on after a number, and nothing that would do so
      -- may follow one.
      have hstop : ∀ t ∈ rest.head?, d.continues? t ≠ some .primary := by
        intro t ht hl
        rcases hrest t ht _ hl with hlt | ⟨-, -, hbare⟩
        · exact absurd hlt (lt_irrefl _)
        · exact hbare rfl ⟨k, rfl⟩
      rw [List.singleton_append, parse_primary, parsePrimary, resume_stop _ hstop]
  | string s =>
      intro rest _
      rw [List.singleton_append, parse_primary, parsePrimary]
  | group h ih =>
      intro rest _
      have hparse := ih.parse_eq (.symbol ")" :: rest)
        (stops_cons_of_none (d.continues?_closing (by simp)))
      simp only [List.cons_append, List.append_assoc, List.nil_append]
      rw [parse_primary, parsePrimary]
      simp [hparse]
      omega
  | array items h ih =>
      intro rest _
      have hparse := parseItems_unkeyed rest (show "]" ∈ _ by simp) items h ih
      simp only [List.cons_append, List.append_assoc, List.nil_append]
      rw [parse_primary, parsePrimary]
      simp [hparse, Function.comp_def]
      omega
  | object entries h ih =>
      intro rest _
      have hparse := parseItems_eq true rest (show "\x7d" ∈ _ by simp) entries (by simp) h ih
      rw [show entry true = fun i => .string i.1 :: .symbol ":" :: i.2.tokens from rfl] at hparse
      simp only [List.cons_append, List.append_assoc, List.nil_append]
      rw [parse_primary, parsePrimary]
      simp [hparse]
      omega
  | call items hf hts h ihf ih =>
      intro rest _
      have hparse := parseItems_unkeyed rest (show ")" ∈ _ by simp) items h ih
      simp only [List.cons_append, List.append_assoc, List.nil_append]
      rw [ihf _ (follows_cons (d.continues?_opening (by simp)).2.1 (.inl rfl) fun _ => hts),
        resume_call _ hparse (by simp; omega)]
      simp [Function.comp_def]
  | member he hts hfield ih =>
      intro rest _
      simp only [List.cons_append, List.append_assoc, List.nil_append]
      rw [ih _ (follows_cons (d.continues?_opening (by simp)).2.1 (.inl rfl) fun _ => hts),
        resume_member _ hfield]
  | index he hts hkey ih ihkey =>
      intro rest _
      have hparse := ihkey.parse_eq (.symbol "]" :: rest)
        (stops_cons_of_none (d.continues?_closing (by simp)))
      simp only [List.cons_append, List.append_assoc, List.nil_append]
      rw [ih _ (follows_cons (d.continues?_opening (by simp)).2.1 (.inl rfl) fun _ => hts),
        resume_index _ hparse (by simp; omega)]
  | unary o h ih =>
      intro rest hrest
      have hstop := hrest.stops (not_chains_unaryLevel d o)
      rw [List.cons_append, parse_unary, ih.parse_eq rest hstop, hstop.resume_eq]
      rfl
  | chain o ho ha hb iha ihb =>
      intro rest hrest
      -- The operator goes on with the left operand, so the loop takes it up.
      have hloop : Chains d (d.binaryLevel o) := .inr ⟨o, rfl, ho⟩
      have hparse := ihb.parse_eq rest (hrest.stops_next (d.binaryLevel_ne_primary o))
      simp only [List.append_assoc, List.cons_append]
      rw [iha _ (follows_cons (d.continues?_binaryToken o) hloop
          fun hl => absurd hl (d.binaryLevel_ne_primary o)),
        resume_chain _ ho hparse (by simp)]
  | @single o ts us a b n m ho ha hb iha ihb =>
      intro rest hrest
      have hl := d.binaryLevel_ne_primary o
      -- No loop here: the left operand is read at the next level, and the
      -- operator is taken once.
      have hstop := hrest.stops (not_chains_of_nonAssociative ho)
      have hparse := ihb.parse_eq rest (hrest.stops_next hl)
      have hleft := iha.parse_eq (d.binaryToken o :: (us ++ rest))
        (stops_cons (d.continues?_binaryToken o) (by rw [Level.rank_next hl]; omega))
      obtain ⟨t, ts, rfl, ht⟩ := exists_opens_of_derivation ha
      simp only [List.append_assoc, List.cons_append] at hleft ⊢
      rw [parse_next hl (unaryAt?_eq_none hl ht) hleft (by simp), resume_single _ ho hparse,
        hstop.resume_eq]
  | javascriptConditional hd hc ht hf ihc iht ihf =>
      subst hd
      exact finds_conditional hc ihc iht ihf
  | pythonConditional hd ht hc hf iht ihc ihf =>
      subst hd
      exact finds_conditional ht iht ihc ihf
  | @next l ts e n hl h ih =>
      intro rest hrest
      obtain ⟨t, ts, rfl, ht⟩ := exists_opens_of_derivation h
      have hparse := ih.parse_eq rest (hrest.stops_next hl)
      exact parse_next hl (unaryAt?_eq_none hl ht) hparse (by simp)

end Parser

/-- A list of tokens has at most one tree. -/
theorem Derives.unique {d : Dialect} {l : Level} {ts : List Token} {e e' : Expr}
    (h : Derives d l ts e) (h' : Derives d l ts e') : e = e' := by
  obtain ⟨_, h⟩ := h
  obtain ⟨_, h'⟩ := h'
  have hend : Parser.Stops d l [] := by simp [Parser.Stops]
  have hparse := (Parser.finds_of_derivation h).parse_eq [] hend
  rw [(Parser.finds_of_derivation h').parse_eq [] hend] at hparse
  simpa using hparse.symm

end TargetCode
