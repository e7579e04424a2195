import TargetCode.Proofs.Parser

/-!
Rendered expressions are read back as the expressions they came from.

The text of an expression is cut into the tokens `Expr.tokens`, and these
have exactly one tree in the grammar of the dialect. It is the expression
itself without attached statements, except that the text does not tell a
negative number from a negated one, nor a dotted path from a chain of fields.
-/

namespace TargetCode

open Token

/-- Whether a text is a name that the dialect does not use as a keyword. -/
def Dialect.isName (d : Dialect) (w : List Char) : Bool :=
  isWord w && !d.keywords.contains (String.ofList w)

mutual

/-- Whether every name in an expression is a name of the dialect, or names
joined by dots where a path may stand, and no literal is a floating-point
number. Attached statements do not matter. -/
def Expr.readable (d : Dialect) : Expr → Bool
  | .literal (.float _) => false
  | .literal _ => true
  | .name path => (Settings.splitDots path.toList).all d.isName
  | .unary _ e => e.readable d
  | .binary _ l r => l.readable d && r.readable d
  | .conditional c t f => c.readable d && t.readable d && f.readable d
  | .call f args => f.readable d && Expr.readableAll d args
  | .member e field => e.readable d && d.isName field.toList
  | .index e key => e.readable d && key.readable d
  | .array es => Expr.readableAll d es
  | .object entries => Expr.readableEntries d entries
  | .hoisted _ e => e.readable d
termination_by structural e => e

def Expr.readableAll (d : Dialect) : List Expr → Bool
  | [] => true
  | e :: es => e.readable d && Expr.readableAll d es
termination_by structural es => es

def Expr.readableEntries (d : Dialect) : List (String × Expr) → Bool
  | [] => true
  | (_, e) :: es => e.readable d && Expr.readableEntries d es
termination_by structural es => es

end

/-! ### What is read back -/

/-- A dotted path as a chain of fields. -/
def Expr.ofPath : List (List Char) → Expr
  | [] => .name ""
  | part :: parts =>
    parts.foldl (fun e part => .member e (String.ofList part)) (.name (String.ofList part))

mutual

/-- The tree that a reader of the text sees. -/
def Expr.asRead : Expr → Expr
  | .literal (.int i) =>
    if i < 0 then .unary .negate (.literal (.int i.natAbs)) else .literal (.int i)
  | .literal v => .literal v
  | .name path => .ofPath (Settings.splitDots path.toList)
  | .unary o e => .unary o e.asRead
  | .binary o l r => .binary o l.asRead r.asRead
  | .conditional c t f => .conditional c.asRead t.asRead f.asRead
  | .call f args => .call f.asRead (Expr.asReadAll args)
  | .member e field => .member e.asRead field
  | .index e key => .index e.asRead key.asRead
  | .array es => .array (Expr.asReadAll es)
  | .object entries => .object (Expr.asReadEntries entries)
  | .hoisted _ e => e.asRead
termination_by structural e => e

def Expr.asReadAll : List Expr → List Expr
  | [] => []
  | e :: es => e.asRead :: Expr.asReadAll es
termination_by structural es => es

def Expr.asReadEntries : List (String × Expr) → List (String × Expr)
  | [] => []
  | (key, e) :: es => (key, e.asRead) :: Expr.asReadEntries es
termination_by structural es => es

end

/-! ### The tokens of an expression -/

/-- Tokens, in parentheses if `wrap` says so. -/
def grouped (wrap : Bool) (ts : List Token) : List Token :=
  if wrap then .symbol "(" :: (ts ++ [.symbol ")"]) else ts

def pathTokens (parts : List (List Char)) : List Token :=
  List.intercalate [.symbol "."] (parts.map fun part => [.word (String.ofList part)])

/-- The tokens of a literal; floating-point numbers are left out. -/
def Dialect.literalTokens (d : Dialect) : Literal → List Token
  | .str s => [.string s]
  | .int i => if i < 0 then [.symbol "-", .number i.natAbs] else [.number i.natAbs]
  | .float _ => []
  | .bool b => [.word (d.literal (.bool b))]
  | .null => [.word (d.literal .null)]

mutual

/-- The tokens of the text of an expression. -/
def Expr.tokens (d : Dialect) : Expr → List Token
  | .literal v => d.literalTokens v
  | .name path => pathTokens (Settings.splitDots path.toList)
  | .unary o e =>
    d.unaryToken o :: grouped ((d.unaryLevel o).needsParensAlone (e.level d)) (e.tokens d)
  | .binary o l r =>
    let wrap := fun side operand => (d.binaryLevel o).needsParens (d.associativity o) operand side
    grouped (wrap .left (l.level d)) (l.tokens d) ++
      d.binaryToken o :: grouped (wrap .right (r.level d)) (r.tokens d)
  | .conditional c t f =>
    let condition := grouped (c.needsParensInConditional d .left) (c.tokens d)
    let whenFalse := grouped (f.needsParensInConditional d .right) (f.tokens d)
    match d with
    | .javascript =>
      condition ++ .symbol "?" ::
        (grouped (t.needsParensInConditional d .right) (t.tokens d) ++ .symbol ":" :: whenFalse)
    | .python =>
      grouped (t.needsParensInConditional d .left) (t.tokens d) ++ .word "if" ::
        (condition ++ .word "else" :: whenFalse)
  | .call f args =>
    grouped (f.needsParensAsTarget d) (f.tokens d) ++
      .symbol "(" :: (separated (Expr.tokensAll d args) ++ [.symbol ")"])
  | .member e field =>
    grouped (e.needsParensAsTarget d) (e.tokens d) ++ [.symbol ".", .word field]
  | .index e key =>
    grouped (e.needsParensAsTarget d) (e.tokens d) ++
      .symbol "[" :: (key.tokens d ++ [.symbol "]"])
  | .array es => .symbol "[" :: (separated (Expr.tokensAll d es) ++ [.symbol "]"])
  | .object entries =>
    .symbol "\x7b" :: (separated (Expr.tokensEntries d entries) ++ [.symbol "\x7d"])
  | .hoisted _ e => e.tokens d
termination_by structural e => e

def Expr.tokensAll (d : Dialect) : List Expr → List (List Token)
  | [] => []
  | e :: es => e.tokens d :: Expr.tokensAll d es
termination_by structural es => es

def Expr.tokensEntries (d : Dialect) : List (String × Expr) → List (List Token)
  | [] => []
  | (key, e) :: es => (.string key :: .symbol ":" :: e.tokens d) :: Expr.tokensEntries d es
termination_by structural es => es

end

mutual

/-- The pairs of parentheses in the text of an expression that group. -/
def Expr.pairs (d : Dialect) : Expr → Nat
  | .literal _ => 0
  | .name _ => 0
  | .unary o e => e.pairs d + ((d.unaryLevel o).needsParensAlone (e.level d)).toNat
  | .binary o l r =>
    let wrap := fun side operand => (d.binaryLevel o).needsParens (d.associativity o) operand side
    l.pairs d + (wrap .left (l.level d)).toNat + (r.pairs d + (wrap .right (r.level d)).toNat)
  | .conditional c t f =>
    let side := if d = .javascript then .right else .left
    c.pairs d + (c.needsParensInConditional d .left).toNat +
      (t.pairs d + (t.needsParensInConditional d side).toNat) +
      (f.pairs d + (f.needsParensInConditional d .right).toNat)
  | .call f args => f.pairs d + (f.needsParensAsTarget d).toNat + Expr.pairsAll d args
  | .member e _ => e.pairs d + (e.needsParensAsTarget d).toNat
  | .index e key => e.pairs d + (e.needsParensAsTarget d).toNat + key.pairs d
  | .array es => Expr.pairsAll d es
  | .object entries => Expr.pairsEntries d entries
  | .hoisted _ e => e.pairs d
termination_by structural e => e

def Expr.pairsAll (d : Dialect) : List Expr → Nat
  | [] => 0
  | e :: es => e.pairs d + Expr.pairsAll d es
termination_by structural es => es

def Expr.pairsEntries (d : Dialect) : List (String × Expr) → Nat
  | [] => 0
  | (_, e) :: es => e.pairs d + Expr.pairsEntries d es
termination_by structural es => es

end

/-! ### Cutting the text into these tokens -/

/-- The text is cut into the tokens `ts`, whatever follows that does not run
on from a word. -/
def Spells (text : List Char) (ts : List Token) : Prop :=
  ∀ rest, Detached rest → tokens? (text ++ rest) = (tokens? rest).map (ts ++ ·)

theorem not_mem_symbol {w : String} (hw : w ∈ symbols) {c : Char}
    (hc : continuesWord c ∨ isBlank c ∨ c = '\'') : c ∉ w.toList := by
  intro hmem
  obtain ⟨hword, hblank, hquote⟩ := plain_of_mem_symbol hw hmem
  simp [hword, hblank, hquote] at hc

/-- A letter, a digit, a blank or a quote does not make a symbol longer. -/
theorem joins_eq_false (w : String) {c : Char} (hc : continuesWord c ∨ isBlank c ∨ c = '\'') :
    joins w c = false := by
  simp only [joins, List.any_eq_false, List.isPrefixOf_iff_prefix]
  intro w' hw' hstart
  exact not_mem_symbol hw' hc (hstart.subset (by simp))

/-- Symbols that no other symbol starts with. -/
def brackets : List String :=
  ["(", ")", "[", "]", "\x7b", "\x7d", ","]

theorem tokens?_bracket (s : String) (c : Char) (hs : s.toList = [c]) (h : s ∈ brackets)
    (rest : List Char) : tokens? (c :: rest) = (tokens? rest).map (.symbol s :: ·) := by
  have halone : ∀ s ∈ brackets, s ∈ symbols ∧
      ∀ w ∈ symbols, s.toList <+: w.toList → w.toList = s.toList := by decide
  obtain ⟨hsymbol, honly⟩ := halone s h
  have hjoin : ∀ c ∈ rest.head?, joins s c = false := by
    intro c' _
    simp only [joins, List.any_eq_false, List.isPrefixOf_iff_prefix]
    intro w hw hstart
    have hsame := honly w hw ((List.prefix_append _ _).trans hstart)
    have hlength := hstart.length_le
    rw [hsame, List.length_append, List.length_singleton] at hlength
    omega
  have := tokens?_symbol hsymbol hjoin
  rwa [hs, List.singleton_append] at this

theorem detached_bracket {s : String} {c : Char} (hs : s.toList = [c]) (h : s ∈ brackets)
    (rest : List Char) : Detached (c :: rest) := by
  have hsymbol : ∀ s ∈ brackets, s ∈ symbols := by decide
  exact detached_cons (plain_of_mem_symbol (hsymbol s h) (hs ▸ List.mem_cons_self)).1

theorem tokens?_spaced {w : String} (hw : w ∈ symbols) (rest : List Char) :
    tokens? (w.toList ++ ' ' :: rest) = (tokens? rest).map (.symbol w :: ·) := by
  rw [tokens?_symbol hw (by simpa using joins_eq_false w (.inr (.inl (by decide)))),
    tokens?_blank (by decide)]

theorem tokens?_spacedWord {w : String} (hw : isWord w.toList) (rest : List Char) :
    tokens? (w.toList ++ ' ' :: rest) = (tokens? rest).map (.word w :: ·) := by
  rw [tokens?_word hw (detached_cons (by decide)), tokens?_blank (by decide), String.ofList_toList]

theorem spells_enclose {text : String} {ts : List Token} (h : Spells text.toList ts)
    (wrap : Bool) : Spells (Expr.enclose wrap text).toList (grouped wrap ts) := by
  cases wrap with
  | false => exact h
  | true =>
      intro rest _
      have htext := h (')' :: rest) (detached_cons (by decide))
      have hclose := tokens?_bracket ")" ')' rfl (by decide) rest
      have hopen := tokens?_bracket "(" '(' rfl (by decide)
      simp [Expr.enclose, grouped, hopen, htext, hclose, Function.comp_def]

theorem spells_separated {texts : List String} {parts : List (List Token)}
    (h : List.Forall₂ (fun text ts => Spells text.toList ts) texts parts) :
    Spells (", ".intercalate texts).toList (separated parts) := by
  induction h with
  | nil =>
      intro rest _
      simp [separated]
  | @cons text ts texts parts hfirst hmore ih =>
      cases hmore with
      | nil => simpa [separated] using hfirst
      | @cons text' ts' texts parts hnext hmore =>
          intro rest hrest
          have hcomma : Detached (',' :: ' ' ::
              ((", ".intercalate (text' :: texts)).toList ++ rest)) := detached_cons (by decide)
          have htexts := ih rest hrest
          rw [String.intercalate_cons_cons, String.toList_append, String.toList_append,
            show ", ".toList = [',', ' '] from rfl]
          simp only [List.append_assoc, List.cons_append, List.nil_append]
          rw [hfirst _ hcomma, tokens?_bracket "," ',' rfl (by decide), tokens?_blank (by decide),
            htexts]
          simp [separated, List.intercalate_cons_cons, Function.comp_def]

theorem splitDots_ne_nil (cs : List Char) : Settings.splitDots cs ≠ [] := by
  fun_induction Settings.splitDots cs <;> simp_all

/-- The parts of a path, with their dots, are the path. -/
theorem intercalate_splitDots (cs : List Char) :
    List.intercalate ['.'] (Settings.splitDots cs) = cs := by
  fun_induction Settings.splitDots cs with
  | case1 => rfl
  | case2 rest ih =>
      obtain ⟨part, parts, hparts⟩ := List.exists_cons_of_ne_nil (splitDots_ne_nil rest)
      rw [hparts, List.intercalate_cons_cons, ← hparts, ih]
      rfl
  | case3 c rest _ hparts ih => exact absurd hparts (splitDots_ne_nil rest)
  | case4 c rest _ part parts hparts ih =>
      rw [hparts] at ih
      cases parts with
      | nil => simp_all
      | cons next parts => simp_all [List.intercalate_cons_cons]

theorem spells_word {w : List Char} (hw : isWord w) : Spells w [.word (String.ofList w)] := by
  intro rest hrest
  rw [tokens?_word hw hrest]
  rfl

theorem tokens?_dot {w : List Char} (hw : isWord w) (rest : List Char) :
    tokens? ('.' :: (w ++ rest)) = (tokens? (w ++ rest)).map (.symbol "." :: ·) := by
  cases w with
  | nil => simp [isWord] at hw
  | cons c w =>
      have hc : continuesWord c = true := by
        simp only [isWord, Bool.and_eq_true] at hw
        simp [continuesWord, hw.1]
      exact tokens?_symbol (w := ".") (by decide) (by simpa using joins_eq_false "." (.inl hc))

theorem spells_path {parts : List (List Char)} (hne : parts ≠ []) (h : ∀ w ∈ parts, isWord w) :
    Spells (List.intercalate ['.'] parts) (pathTokens parts) := by
  induction parts with
  | nil => contradiction
  | cons w parts ih =>
      have hw := h w (by simp)
      cases parts with
      | nil => simpa [pathTokens] using spells_word hw
      | cons next parts =>
          intro rest hrest
          have hmore := ih (by simp) (fun w hw => h w (by simp [hw])) rest hrest
          have hnext : isWord next := h next (by simp)
          obtain ⟨tail, htail⟩ : ∃ tail, List.intercalate ['.'] (next :: parts) = next ++ tail := by
            cases parts <;> simp [List.intercalate_cons_cons]
          have hdot := tokens?_dot hnext (tail ++ rest)
          rw [htail] at hmore
          rw [List.intercalate_cons_cons, htail]
          simp only [List.append_assoc, List.cons_append, List.nil_append] at hmore hdot ⊢
          rw [tokens?_word hw (detached_cons (by decide)), hdot, hmore]
          simp [pathTokens, List.intercalate_cons_cons, Function.comp_def]

theorem tokens?_negative (n : Nat) (rest : List Char) :
    tokens? ('-' :: ((Decimal.natural n).toList ++ rest)) =
      (tokens? ((Decimal.natural n).toList ++ rest)).map (.symbol "-" :: ·) := by
  obtain ⟨c, cs, hdigits, hdigit, -⟩ := Decimal.exists_natural_eq_cons n
  have hjoin := joins_eq_false "-" (c := c) (.inl (by simp [continuesWord, hdigit]))
  exact tokens?_symbol (w := "-") (by decide) (by simpa [hdigits] using hjoin)

theorem spells_literal {d : Dialect} {v : Literal} (h : (Expr.literal v).readable d) :
    Spells (d.literal v).toList (d.literalTokens v) := by
  cases v with
  | str s =>
      intro rest _
      exact tokens?_quote s rest
  | int i =>
      intro rest hrest
      have hnumber := tokens?_number i.natAbs hrest
      simp only [Dialect.literal, Decimal.integer, Dialect.literalTokens]
      split
      · have hminus := tokens?_negative i.natAbs rest
        simp [hminus, hnumber, Function.comp_def]
      · rw [hnumber]
        rfl
  | float x => simp [Expr.readable] at h
  | bool b =>
      have := spells_word (w := (d.literal (.bool b)).toList) (by cases d <;> cases b <;> decide)
      simpa [Dialect.literalTokens] using this
  | null =>
      have := spells_word (w := (d.literal .null).toList) (by cases d <;> decide)
      simpa [Dialect.literalTokens] using this

/-- A character that the text of an expression can start with. -/
def StartsOperand (c : Char) : Prop :=
  continuesWord c ∨ c ∈ ['\'', '(', '[', '\x7b', '!', '-']

theorem startsOperand_of_startsValue {c : Char} (h : StartsValue c) : StartsOperand c := by
  rcases h with h | rfl
  · rcases Bool.or_eq_true_iff.1 h with halpha | hdigit
    · exact .inl (by simp [continuesWord, isLetter, Settings.startsIdentifier, halpha])
    · exact .inl (by simp [continuesWord, hdigit])
  · exact .inr (by simp)

theorem firstChar_path {path : String} (h : ∀ w ∈ Settings.splitDots path.toList, isWord w) :
    FirstChar (isLetter ·) path.toList := by
  obtain ⟨w, parts, hparts⟩ := List.exists_cons_of_ne_nil (splitDots_ne_nil path.toList)
  have hw : FirstChar (isLetter ·) w := by
    have hword := h w (by simp [hparts])
    cases w with
    | nil => simp [isWord] at hword
    | cons c w =>
        obtain ⟨hc, -⟩ := by simpa [isWord] using hword
        exact firstChar_cons hc
  rw [← intercalate_splitDots path.toList, hparts]
  cases parts with
  | nil => simpa using hw
  | cons next parts =>
      rw [List.intercalate_cons_cons, List.append_assoc]
      exact hw.append _

namespace Expr

theorem startsOperand_of_starts {part : Option Expr} {c : Char} (h : Starts (isLetter ·) part c) :
    StartsOperand c := by
  match part with
  | none => exact .inr (by simp [show c = '(' from h])
  | some (.literal (.str _)) => exact .inr (by simp [show c = '\'' from h])
  | some (.literal (.int _)) => exact startsOperand_of_startsValue h
  | some (.literal (.float _)) => exact startsOperand_of_startsValue h
  | some (.literal (.bool _)) => exact startsOperand_of_startsValue h
  | some (.literal .null) => exact startsOperand_of_startsValue h
  | some (.name _) => exact .inl (by simp [continuesWord, show isLetter c from h])
  | some (.unary _ _) =>
      have hmark : c = '!' ∨ c = '-' ∨ c = 'n' := by simpa [Starts] using h
      rcases hmark with rfl | rfl | rfl
      · exact .inr (by simp)
      · exact .inr (by simp)
      · exact .inl (by decide)
  | some (.array _) => exact .inr (by simp [show c = '[' from h])
  | some (.object _) => exact .inr (by simp [show c = '\x7b' from h])

theorem readable_of_leading? {d : Dialect} {e a : Expr} {wrap : Bool}
    (h : e.leading? d = some (wrap, a)) (he : e.readable d) : a.readable d := by
  cases e <;> cases d <;>
    simp only [leading?, Option.some.injEq, Prod.mk.injEq, reduceCtorEq] at h <;>
    obtain ⟨-, rfl⟩ := h <;> simp_all [readable]

theorem startsOperand_render {d : Dialect} {e : Expr} (h : e.readable d) :
    FirstChar StartsOperand (e.render d).toList := by
  refine (firstChar_render fun path hpath => ?_).mono fun _ => startsOperand_of_starts
  have hparts := opening?_inherits readable_of_leading? hpath h
  simp only [readable, Dialect.isName, List.all_eq_true, Bool.and_eq_true] at hparts
  exact firstChar_path fun w hw => (hparts w hw).1

end Expr

theorem tokens?_binarySymbol (d : Dialect) (o : BinaryOperator) (rest : List Char) :
    tokens? ((d.binarySymbol o).toList ++ ' ' :: rest) =
      (tokens? rest).map (d.binaryToken o :: ·) := by
  have hcases : (d.binaryToken o = .symbol (d.binarySymbol o) ∧ d.binarySymbol o ∈ symbols) ∨
      (d.binaryToken o = .word (d.binarySymbol o) ∧ isWord (d.binarySymbol o).toList) := by
    cases d <;> cases o <;> decide
  rcases hcases with ⟨htoken, hsymbol⟩ | ⟨htoken, hword⟩
  · rw [htoken, tokens?_spaced hsymbol]
  · rw [htoken, tokens?_spacedWord hword]

theorem tokens?_unarySymbol {d : Dialect} {o : UnaryOperator} {c : Char} {rest : List Char}
    (hc : StartsOperand c) (hminus : o = .negate → c ≠ '-') :
    tokens? ((d.unarySymbol o).toList ++ c :: rest) =
      (tokens? (c :: rest)).map (d.unaryToken o :: ·) := by
  by_cases hnot : d = .python ∧ o = .not
  · obtain ⟨rfl, rfl⟩ := hnot
    exact tokens?_spacedWord (w := "not") (by decide) (c :: rest)
  · have htoken : d.unaryToken o = .symbol (d.unarySymbol o) ∧ d.unarySymbol o ∈ symbols := by
      revert hnot
      cases d <;> cases o <;> decide
    have hjoin : (['\'', '(', '[', '\x7b', '!', '-'].all fun c =>
        (o = .negate && c = '-') || !joins (d.unarySymbol o) c) = true := by
      revert hnot
      cases d <;> cases o <;> decide
    rw [htoken.1]
    apply tokens?_symbol htoken.2
    intro c' hc'
    obtain rfl : c = c' := by simpa using hc'
    rcases hc with hword | hmark
    · exact joins_eq_false _ (.inl hword)
    · have hmark := List.all_eq_true.1 hjoin c hmark
      simp only [Bool.or_eq_true, Bool.and_eq_true, decide_eq_true_eq, Bool.not_eq_true'] at hmark
      rcases hmark with ⟨hnegate, hdash⟩ | hmark
      · exact absurd hdash (hminus hnegate)
      · exact hmark

/-- Two minus signs are kept apart, and no other operator before an operand
runs into it. -/
theorem spells_unaryText {d : Dialect} {text : String} {ts : List Token}
    (h : Spells text.toList ts) (hstart : FirstChar StartsOperand text.toList)
    (o : UnaryOperator) (wrap : Bool) :
    Spells (Expr.unaryText d o wrap text).toList (d.unaryToken o :: grouped wrap ts) := by
  intro rest hrest
  unfold Expr.unaryText
  split
  · rename_i hminus
    simp only [Bool.and_eq_true, Bool.not_eq_true', decide_eq_true_eq] at hminus
    obtain ⟨⟨rfl, rfl⟩, -⟩ := hminus
    have hsign : d.unarySymbol .negate = "-" ∧ d.unaryToken .negate = .symbol "-" := by
      cases d <;> decide
    have htext := h rest hrest
    simp only [String.toList_append, List.append_assoc, hsign]
    rw [show " ".toList ++ (text.toList ++ rest) = ' ' :: (text.toList ++ rest) from rfl,
      tokens?_spaced (by decide), htext]
    simp [grouped, Function.comp_def]
  · -- Nothing stands between the two: an opening parenthesis keeps a second
    -- minus sign away, and without one there is none.
    rename_i hminus
    have htext := spells_enclose h wrap rest hrest
    obtain ⟨c, cs, hcs, hc⟩ :=
      Expr.firstChar_enclose hstart (.inr (by simp)) wrap
    have hapart : o = .negate → c ≠ '-' := by
      rintro rfl rfl
      cases wrap with
      | false => simp [Expr.enclose] at hcs; simp [hcs] at hminus
      | true => simp [Expr.enclose] at hcs
    rw [hcs, List.cons_append] at htext
    rw [String.toList_append, hcs, List.append_assoc, List.cons_append,
      tokens?_unarySymbol hc hapart, htext]
    simp [Function.comp_def]

/-! ### Whole expressions -/

theorem spells_binary {d : Dialect} {a b : String} {ts us : List Token}
    (ha : Spells a.toList ts) (hb : Spells b.toList us) (o : BinaryOperator) :
    Spells (a ++ " " ++ d.binarySymbol o ++ " " ++ b).toList (ts ++ d.binaryToken o :: us) := by
  intro rest hrest
  have hright := hb rest hrest
  have hoperator := tokens?_binarySymbol d o (b.toList ++ rest)
  simp only [String.toList_append, List.append_assoc, show " ".toList = [' '] from rfl,
    List.cons_append, List.nil_append]
  rw [ha _ (detached_cons (by decide)), tokens?_blank (by decide), hoperator, hright]
  simp [Function.comp_def]

/-- A text that is cut into the single token `t`, with blanks around it. -/
def Marks (text : String) (t : Token) : Prop :=
  ∀ rest, Detached (text.toList ++ rest) ∧
    tokens? (text.toList ++ rest) = (tokens? rest).map (t :: ·)

theorem marks_symbol {text w : String} (htext : text.toList = ' ' :: (w.toList ++ [' ']))
    (hw : w ∈ symbols) : Marks text (.symbol w) := by
  intro rest
  rw [htext, List.cons_append, List.append_assoc]
  exact ⟨detached_cons (by decide), by rw [tokens?_blank (by decide)]; exact tokens?_spaced hw rest⟩

theorem marks_word {text w : String} (htext : text.toList = ' ' :: (w.toList ++ [' ']))
    (hw : isWord w.toList) : Marks text (.word w) := by
  intro rest
  rw [htext, List.cons_append, List.append_assoc]
  exact ⟨detached_cons (by decide),
    by rw [tokens?_blank (by decide)]; exact tokens?_spacedWord hw rest⟩

/-- A conditional, with its parts and its two marks in the order of the
text. -/
theorem spells_conditional {a b c m n : String} {ts us vs : List Token} {t u : Token}
    (ha : Spells a.toList ts) (hm : Marks m t) (hb : Spells b.toList us) (hn : Marks n u)
    (hc : Spells c.toList vs) :
    Spells (a ++ m ++ b ++ n ++ c).toList (ts ++ t :: (us ++ u :: vs)) := by
  intro rest hrest
  simp only [String.toList_append, List.append_assoc]
  rw [ha _ (hm _).1, (hm _).2, hb _ (hn _).1, (hn _).2, hc rest hrest]
  simp [Function.comp_def]

/-- A text between two brackets, after a text that they go with. -/
theorem spells_bracketed {text inner : String} {ts us : List Token} (opening closing : String)
    {c c' : Char} (htext : Spells text.toList ts) (hinner : Spells inner.toList us)
    (hc : opening.toList = [c]) (hc' : closing.toList = [c'])
    (hopening : opening ∈ brackets) (hclosing : closing ∈ brackets) :
    Spells (text ++ opening ++ inner ++ closing).toList
      (ts ++ .symbol opening :: (us ++ [.symbol closing])) := by
  intro rest _
  have hafter := hinner _ (detached_bracket hc' hclosing rest)
  have hbefore := htext _ (detached_bracket hc hopening (inner.toList ++ c' :: rest))
  simp only [String.toList_append, List.append_assoc, hc, hc', List.cons_append, List.nil_append]
  rw [hbefore, tokens?_bracket opening c hc hopening, hafter,
    tokens?_bracket closing c' hc' hclosing]
  simp [Function.comp_def]

theorem spells_member {text field : String} {ts : List Token} (h : Spells text.toList ts)
    (hfield : isWord field.toList) :
    Spells (text ++ "." ++ field).toList (ts ++ [.symbol ".", .word field]) := by
  intro rest hrest
  have hword := tokens?_word hfield hrest
  have hdot := tokens?_dot hfield rest
  simp only [String.toList_append, List.append_assoc, show ".".toList = ['.'] from rfl,
    List.cons_append, List.nil_append]
  rw [h _ (detached_cons (by decide)), hdot, hword]
  simp [Function.comp_def]

theorem spells_nil : Spells "".toList [] := by
  intro rest _
  simp

theorem spells_entry {text key : String} {ts : List Token} (h : Spells text.toList ts) :
    Spells (Text.quote key ++ ": " ++ text).toList (.string key :: .symbol ":" :: ts) := by
  intro rest hrest
  have hcolon := tokens?_spaced (w := ":") (by decide) (text.toList ++ rest)
  simp only [String.toList_append, List.append_assoc]
  rw [tokens?_quote, show ": ".toList ++ (text.toList ++ rest) =
    ":".toList ++ ' ' :: (text.toList ++ rest) from rfl, hcolon, h rest hrest]
  simp [Function.comp_def]

mutual

theorem Expr.spells_render (d : Dialect) : ∀ e : Expr, e.readable d →
    Spells (e.render d).toList (e.tokens d)
  | .literal v, h => spells_literal h
  | .name path, h => by
      simp only [Expr.readable, Dialect.isName, List.all_eq_true, Bool.and_eq_true] at h
      have hpath := spells_path (splitDots_ne_nil path.toList) fun w hw => (h w hw).1
      rwa [intercalate_splitDots] at hpath
  | .unary o e, h =>
      spells_unaryText (Expr.spells_render d e h) (Expr.startsOperand_render h) o _
  | .binary o l r, h => by
      simp only [Expr.readable, Bool.and_eq_true] at h
      exact spells_binary (spells_enclose (Expr.spells_render d l h.1) _)
        (spells_enclose (Expr.spells_render d r h.2) _) o
  | .conditional c t f, h => by
      simp only [Expr.readable, Bool.and_eq_true] at h
      have hc := Expr.spells_render d c h.1.1
      have ht := Expr.spells_render d t h.1.2
      have hf := Expr.spells_render d f h.2
      cases d with
      | javascript =>
          exact spells_conditional (spells_enclose hc _) (marks_symbol (w := "?") rfl (by decide))
            (spells_enclose ht _) (marks_symbol (w := ":") rfl (by decide)) (spells_enclose hf _)
      | python =>
          exact spells_conditional (spells_enclose ht _) (marks_word (w := "if") rfl (by decide))
            (spells_enclose hc _) (marks_word (w := "else") rfl (by decide)) (spells_enclose hf _)
  | .call f args, h => by
      simp only [Expr.readable, Bool.and_eq_true] at h
      exact spells_bracketed "(" ")" (spells_enclose (Expr.spells_render d f h.1) _)
        (spells_separated (Expr.spells_renderAll d args h.2)) rfl rfl (by decide) (by decide)
  | .member e field, h => by
      simp only [Expr.readable, Dialect.isName, Bool.and_eq_true] at h
      exact spells_member (spells_enclose (Expr.spells_render d e h.1) _) h.2.1
  | .index e key, h => by
      simp only [Expr.readable, Bool.and_eq_true] at h
      exact spells_bracketed "[" "]" (spells_enclose (Expr.spells_render d e h.1) _)
        (Expr.spells_render d key h.2) rfl rfl (by decide) (by decide)
  | .array es, h => by
      have := spells_bracketed "[" "]" spells_nil
        (spells_separated (Expr.spells_renderAll d es h)) rfl rfl (by decide) (by decide)
      rwa [String.empty_append, List.nil_append] at this
  | .object entries, h => by
      have := spells_bracketed "\x7b" "\x7d" spells_nil
        (spells_separated (Expr.spells_renderEntries d entries h)) rfl rfl (by decide) (by decide)
      rwa [String.empty_append, List.nil_append] at this
  | .hoisted _ e, h => Expr.spells_render d e h

theorem Expr.spells_renderAll (d : Dialect) : ∀ es : List Expr, Expr.readableAll d es →
    List.Forall₂ (fun text ts => Spells text.toList ts) (Expr.renderAll d es) (Expr.tokensAll d es)
  | [], _ => .nil
  | e :: es, h => by
      simp only [Expr.readableAll, Bool.and_eq_true] at h
      exact .cons (Expr.spells_render d e h.1) (Expr.spells_renderAll d es h.2)

theorem Expr.spells_renderEntries (d : Dialect) : ∀ es : List (String × Expr),
    Expr.readableEntries d es →
    List.Forall₂ (fun text ts => Spells text.toList ts) (Expr.renderEntries d es)
      (Expr.tokensEntries d es)
  | [], _ => .nil
  | (key, e) :: es, h => by
      simp only [Expr.readableEntries, Bool.and_eq_true] at h
      exact .cons (spells_entry (Expr.spells_render d e h.1)) (Expr.spells_renderEntries d es h.2)

end

/-! ### Deriving these tokens -/

theorem Level.rank_le_ten (l : Level) : l.rank ≤ 10 := by
  cases l <;> decide

theorem Level.rank_injective {l l' : Level} (h : l.rank = l'.rank) : l = l' := by
  cases l <;> cases l' <;> simp_all [Level.rank]

section

variable {d : Dialect} {target : List Token → Prop} {l l' : Level} {ts : List Token} {e : Expr}
  {n : Nat}

/-- What is derived at a level is derived at every weaker level. -/
theorem Derivation.weaken (h : Derivation d target l' ts e n) (hl : l.rank ≤ l'.rank) :
    Derivation d target l ts e n := by
  obtain ⟨k, hk⟩ := Nat.exists_eq_add_of_le hl
  induction k generalizing l with
  | zero =>
      have heq : l = l' := Level.rank_injective (by omega)
      exact heq ▸ h
  | succ k ih =>
      have hne : l ≠ .primary := by
        rintro rfl
        have := l'.rank_le_ten
        rw [show Level.primary.rank = 10 from rfl] at hk
        omega
      have hnext := Level.rank_next hne
      exact .next hne (ih (by omega) (by omega))

theorem Derivation.conditional (h : Derivation d target l ts e n) :
    Derivation d target .conditional ts e n :=
  h.weaken (by cases l <;> decide)

/-- An operand in parentheses fits anywhere; without them it has to be strong
enough. -/
theorem Derivation.grouped {wrap : Bool} (h : Derivation d target l' ts e n)
    (hl : wrap = false → l.rank ≤ l'.rank) :
    Derivation d target l (grouped wrap ts) e (n + wrap.toNat) := by
  cases wrap with
  | false => exact h.weaken (hl rfl)
  | true => exact (Derivation.group h.conditional).weaken l.rank_le_ten

end

theorem Level.rank_le_of_not_needsParens {operator operand : Level} {a : Associativity}
    {side : Side} (h : operator.needsParens a operand side = false) :
    operator.rank ≤ operand.rank := by
  unfold Level.needsParens at h
  split at h
  · subst operand
    exact operator.rank_le_ten
  · simp only [Level.weaker, Bool.or_eq_false_iff, decide_eq_false_iff_not] at h
    omega

theorem Level.rank_lt_of_not_needsParens {operator operand : Level} {a : Associativity}
    {side : Side} (h : operator.needsParens a operand side = false) (hside : a.admits side = false)
    (hl : operator ≠ .primary) : operator.rank < operand.rank := by
  have hle := Level.rank_le_of_not_needsParens h
  have hne : operator ≠ operand := by
    rintro rfl
    simp [Level.needsParens, hl, hside] at h
  rcases Nat.lt_or_eq_of_le hle with hlt | heq
  · exact hlt
  · exact absurd (Level.rank_injective heq) hne

theorem Level.rank_le_of_not_needsParensAlone {operator operand : Level}
    (h : operator.needsParensAlone operand = false) : operator.rank ≤ operand.rank := by
  by_cases hoperand : operand = .primary
  · subst operand
    exact operator.rank_le_ten
  · simp only [Level.needsParensAlone, Level.weaker, ne_eq, hoperand, not_false_eq_true,
      decide_true, Bool.true_and, decide_eq_false_iff_not] at h
    omega

theorem Dialect.not_mem_keywords_of_isName {d : Dialect} {w : List Char} (h : d.isName w) :
    String.ofList w ∉ d.keywords := by
  rw [Dialect.isName, Bool.and_eq_true, Bool.not_eq_true'] at h
  simpa using h.2

theorem derivation_fields {d : Dialect} {ts : List Token} {e : Expr} {n : Nat}
    (h : Derivation d (¬BareNumber ·) .primary ts e n) (hts : ¬BareNumber ts)
    {parts : List (List Char)} (hparts : ∀ w ∈ parts, d.isName w) :
    Derivation d (¬BareNumber ·) .primary
      (ts ++ parts.flatMap fun part => [.symbol ".", .word (String.ofList part)])
      (parts.foldl (fun e part => .member e (String.ofList part)) e) n := by
  induction parts generalizing ts e with
  | nil => simpa using h
  | cons w parts ih =>
      have hw := Dialect.not_mem_keywords_of_isName (hparts w (by simp))
      have hbare : ¬BareNumber (ts ++ [.symbol ".", .word (String.ofList w)]) := by
        rintro ⟨n, hn⟩
        have := congrArg List.length hn
        simp at this
      have := ih (.member h hts hw) hbare fun w hw => hparts w (by simp [hw])
      simpa using this

theorem pathTokens_cons (w : List Char) (parts : List (List Char)) :
    pathTokens (w :: parts) = [.word (String.ofList w)] ++
      parts.flatMap fun part => [.symbol ".", .word (String.ofList part)] := by
  induction parts generalizing w with
  | nil => simp [pathTokens]
  | cons next parts ih =>
      have hnext := ih next
      simp only [pathTokens, List.map_cons, List.intercalate_cons_cons] at hnext ⊢
      rw [hnext]
      simp

theorem derivation_path {d : Dialect} {parts : List (List Char)} (hne : parts ≠ [])
    (h : ∀ w ∈ parts, d.isName w) :
    Derivation d (¬BareNumber ·) .primary (pathTokens parts) (.ofPath parts) 0 := by
  cases parts with
  | nil => contradiction
  | cons w parts =>
      have hw := Dialect.not_mem_keywords_of_isName (h w (by simp))
      have hbare : ¬BareNumber [.word (String.ofList w)] := by
        rintro ⟨n, hn⟩
        simp at hn
      rw [pathTokens_cons]
      exact derivation_fields (.name hw) hbare fun w hw => h w (by simp [hw])

theorem BareNumber.mem {ts : List Token} {t : Token} (h : BareNumber ts) (ht : t ∈ ts) :
    ∃ n, t = .number n := by
  obtain ⟨n, rfl⟩ := h
  exact ⟨n, by simpa using ht⟩

/-- Only a number has the tokens of a bare number: every other expression has
a token of another kind. -/
theorem Expr.isNumber_of_bareNumber (d : Dialect) :
    ∀ e : Expr, BareNumber (e.tokens d) → e.isNumber
  | .literal v, h => by
      cases v with
      | int i => rfl
      | float x => rfl
      | str s => simpa using h.mem (List.mem_singleton.2 rfl)
      | bool b => simpa using h.mem (List.mem_singleton.2 rfl)
      | null => simpa using h.mem (List.mem_singleton.2 rfl)
  | .name path, h => by
      obtain ⟨w, parts, hparts⟩ := List.exists_cons_of_ne_nil (splitDots_ne_nil path.toList)
      rw [Expr.tokens, hparts, pathTokens_cons] at h
      simpa using h.mem (List.mem_append_left _ (List.mem_singleton.2 rfl))
  | .unary o e, h => by
      obtain ⟨n, hn⟩ := h.mem (t := d.unaryToken o) (by simp [Expr.tokens])
      exact absurd hn (d.unaryToken_ne_number o n)
  | .binary o l r, h => by
      obtain ⟨n, hn⟩ := h.mem (t := d.binaryToken o) (by simp [Expr.tokens])
      exact absurd hn (d.binaryToken_ne_number o n)
  | .conditional c t f, h => by
      cases d with
      | javascript => simpa using h.mem (t := .symbol "?") (by simp [Expr.tokens])
      | python => simpa using h.mem (t := .word "if") (by simp [Expr.tokens])
  | .call f args, h => by simpa using h.mem (t := .symbol ")") (by simp [Expr.tokens])
  | .member e field, h => by simpa using h.mem (t := .symbol ".") (by simp [Expr.tokens])
  | .index e key, h => by simpa using h.mem (t := .symbol "]") (by simp [Expr.tokens])
  | .array es, h => by simpa using h.mem (t := .symbol "]") (by simp [Expr.tokens])
  | .object entries, h => by simpa using h.mem (t := .symbol "\x7d") (by simp [Expr.tokens])
  | .hoisted _ e, h => Expr.isNumber_of_bareNumber d e h

theorem not_bareNumber_target (d : Dialect) (e : Expr) :
    ¬BareNumber (grouped (e.needsParensAsTarget d) (e.tokens d)) := by
  intro h
  cases hwrap : e.needsParensAsTarget d with
  | true =>
      rw [hwrap] at h
      simpa using h.mem (t := .symbol "(") (by simp [grouped])
  | false =>
      rw [hwrap] at h
      have := Expr.isNumber_of_bareNumber d e h
      simp [Expr.needsParensAsTarget, this] at hwrap

/-- The tokens of an expression are derived at its own level, and `e'` is what they
are read as. -/
def Expr.ReadAs (d : Dialect) (e e' : Expr) : Prop :=
  Derivation d (¬BareNumber ·) (e.level d) (e.tokens d) e' (e.pairs d)

theorem derivation_target {d : Dialect} {e e' : Expr} (h : e.ReadAs d e') :
    Derivation d (¬BareNumber ·) .primary (grouped (e.needsParensAsTarget d) (e.tokens d)) e'
      (e.pairs d + (e.needsParensAsTarget d).toNat) := by
  apply h.grouped
  intro hwrap
  simp only [Expr.needsParensAsTarget, Bool.or_eq_false_iff] at hwrap
  exact Level.rank_le_of_not_needsParensAlone hwrap.2

theorem readAs_literal {d : Dialect} {v : Literal} (h : (Expr.literal v).readable d) :
    (Expr.literal v).ReadAs d (Expr.literal v).asRead := by
  cases v with
  | str s => exact .string s
  | int i =>
      have hnumber : Derivation d (¬BareNumber ·) .primary [.number i.natAbs]
          (.literal (.int i.natAbs)) 0 := .number i.natAbs
      by_cases hi : i < 0
      · have hminus := Derivation.unary .negate (hnumber.weaken (Level.rank_le_ten _))
        have hlevel : d.unaryLevel .negate = .unary := by cases d <;> rfl
        have htoken : d.unaryToken .negate = .symbol "-" := by cases d <;> rfl
        rw [hlevel, htoken] at hminus
        simpa [Expr.ReadAs, Expr.level, Literal.isNegative, Expr.tokens, Dialect.literalTokens,
          Expr.pairs, Expr.asRead, hi] using hminus
      · rw [Int.natAbs_of_nonneg (Int.not_lt.1 hi)] at hnumber
        simpa [Expr.ReadAs, Expr.level, Literal.isNegative, Expr.tokens, Dialect.literalTokens,
          Expr.pairs, Expr.asRead, hi] using hnumber
  | float x => simp [Expr.readable] at h
  | bool b => exact .constant (by cases d <;> cases b <;> decide)
  | null => exact .constant (by cases d <;> decide)

theorem readAs_binary {d : Dialect} (o : BinaryOperator) {a b a' b' : Expr} (ha : a.ReadAs d a')
    (hb : b.ReadAs d b') : (Expr.binary o a b).ReadAs d (.binary o a' b') := by
  have hlevel := d.binaryLevel_ne_primary o
  have hnext := Level.rank_next hlevel
  -- On a side that the operator does not group towards, an operand without
  -- parentheses belongs to the next level.
  have hstrict : ∀ {e : Expr} {side : Side}, (d.associativity o).admits side = false →
      (d.binaryLevel o).needsParens (d.associativity o) (e.level d) side = false →
      (d.binaryLevel o).next.rank ≤ (e.level d).rank := by
    intro e side hside hwrap
    have := Level.rank_lt_of_not_needsParens hwrap hside hlevel
    omega
  have hassoc : d.associativity o = .left ∨ d.associativity o = .nonAssociative := by
    cases d <;> cases o <;> decide
  rcases hassoc with hassoc | hassoc
  · refine .chain o hassoc (ha.grouped Level.rank_le_of_not_needsParens) (hb.grouped (hstrict ?_))
    rw [hassoc]
    rfl
  · refine .single o hassoc (ha.grouped (hstrict ?_)) (hb.grouped (hstrict ?_)) <;>
    · rw [hassoc]
      rfl

theorem readAs_conditional {d : Dialect} {c t f c' t' f' : Expr} (hc : c.ReadAs d c')
    (ht : t.ReadAs d t') (hf : f.ReadAs d f') :
    (Expr.conditional c t f).ReadAs d (.conditional c' t' f') := by
  -- Only the operand on the right may be a conditional itself.
  have hleft : ∀ {e : Expr}, e.needsParensInConditional d .left = false →
      Level.logicalOr.rank ≤ (e.level d).rank := fun h =>
    Level.rank_lt_of_not_needsParens h rfl (by decide)
  have hright : ∀ {e : Expr}, e.needsParensInConditional d .right = false →
      Level.conditional.rank ≤ (e.level d).rank := Level.rank_le_of_not_needsParens
  cases d with
  | javascript =>
      exact .javascriptConditional rfl (hc.grouped hleft) (ht.grouped hright) (hf.grouped hright)
  | python => exact .pythonConditional rfl (ht.grouped hleft) (hc.grouped hleft) (hf.grouped hright)

/-- The items of a list with a derivation for each. -/
def ReadAllAs (d : Dialect) (parts : List (List Token)) (es : List Expr) (n : Nat) : Prop :=
  ∃ items : List Derived, items.map Derived.tokens = parts ∧ items.map Derived.tree = es ∧
    (items.map Derived.pairs).sum = n ∧
    ∀ i ∈ items, Derivation d (¬BareNumber ·) .conditional i.tokens i.tree i.pairs

def ReadEntriesAs (d : Dialect) (parts : List (List Token)) (es : List (String × Expr))
    (n : Nat) : Prop :=
  ∃ entries : List (String × Derived),
    entries.map (fun i => .string i.1 :: .symbol ":" :: i.2.tokens) = parts ∧
      entries.map (fun i => (i.1, i.2.tree)) = es ∧ (entries.map fun i => i.2.pairs).sum = n ∧
      ∀ i ∈ entries, Derivation d (¬BareNumber ·) .conditional i.2.tokens i.2.tree i.2.pairs

mutual

/-- A readable expression is read as the tree that a reader sees. -/
theorem Expr.readAs_asRead (d : Dialect) : ∀ e : Expr, e.readable d → e.ReadAs d e.asRead
  | .literal _, h => readAs_literal h
  | .name path, h => by
      rw [Expr.readable, List.all_eq_true] at h
      exact derivation_path (splitDots_ne_nil path.toList) h
  | .unary o e, h =>
      .unary o ((Expr.readAs_asRead d e h).grouped Level.rank_le_of_not_needsParensAlone)
  | .binary o a b, h => by
      rw [Expr.readable, Bool.and_eq_true] at h
      exact readAs_binary o (Expr.readAs_asRead d a h.1) (Expr.readAs_asRead d b h.2)
  | .conditional c t f, h => by
      simp only [Expr.readable, Bool.and_eq_true] at h
      exact readAs_conditional (Expr.readAs_asRead d c h.1.1) (Expr.readAs_asRead d t h.1.2)
        (Expr.readAs_asRead d f h.2)
  | .call f args, h => by
      rw [Expr.readable, Bool.and_eq_true] at h
      obtain ⟨items, hparts, htrees, hpairs, hitems⟩ := Expr.readAllAs_asReadAll d args h.2
      rw [Expr.ReadAs, Expr.tokens, Expr.asRead, Expr.pairs, ← hparts, ← htrees, ← hpairs]
      exact .call items (derivation_target (Expr.readAs_asRead d f h.1))
        (not_bareNumber_target d f) hitems
  | .member e field, h => by
      rw [Expr.readable, Bool.and_eq_true] at h
      have hfield := Dialect.not_mem_keywords_of_isName h.2
      rw [String.ofList_toList] at hfield
      exact .member (derivation_target (Expr.readAs_asRead d e h.1)) (not_bareNumber_target d e)
        hfield
  | .index e key, h => by
      rw [Expr.readable, Bool.and_eq_true] at h
      exact .index (derivation_target (Expr.readAs_asRead d e h.1)) (not_bareNumber_target d e)
        (Expr.readAs_asRead d key h.2).conditional
  | .array es, h => by
      obtain ⟨items, hparts, htrees, hpairs, hitems⟩ := Expr.readAllAs_asReadAll d es h
      rw [Expr.ReadAs, Expr.tokens, Expr.asRead, Expr.pairs, ← hparts, ← htrees, ← hpairs]
      exact .array items hitems
  | .object es, h => by
      obtain ⟨entries, hparts, htrees, hpairs, hentries⟩ := Expr.readEntriesAs_asReadEntries d es h
      rw [Expr.ReadAs, Expr.tokens, Expr.asRead, Expr.pairs, ← hparts, ← htrees, ← hpairs]
      exact .object entries hentries
  | .hoisted _ e, h => Expr.readAs_asRead d e h

theorem Expr.readAllAs_asReadAll (d : Dialect) : ∀ es : List Expr, Expr.readableAll d es →
    ReadAllAs d (Expr.tokensAll d es) (Expr.asReadAll es) (Expr.pairsAll d es)
  | [], _ => ⟨[], rfl, rfl, rfl, by simp⟩
  | e :: es, h => by
      rw [Expr.readableAll, Bool.and_eq_true] at h
      obtain ⟨items, hparts, htrees, hpairs, hitems⟩ := Expr.readAllAs_asReadAll d es h.2
      have he := (Expr.readAs_asRead d e h.1).conditional
      exact ⟨⟨e.tokens d, e.asRead, e.pairs d⟩ :: items,
        by rw [List.map_cons, hparts, Expr.tokensAll],
        by rw [List.map_cons, htrees, Expr.asReadAll],
        by rw [List.map_cons, List.sum_cons, hpairs, Expr.pairsAll],
        List.forall_mem_cons.2 ⟨he, hitems⟩⟩

theorem Expr.readEntriesAs_asReadEntries (d : Dialect) : ∀ es : List (String × Expr),
    Expr.readableEntries d es →
    ReadEntriesAs d (Expr.tokensEntries d es) (Expr.asReadEntries es) (Expr.pairsEntries d es)
  | [], _ => ⟨[], rfl, rfl, rfl, by simp⟩
  | (key, e) :: es, h => by
      rw [Expr.readableEntries, Bool.and_eq_true] at h
      obtain ⟨entries, hparts, htrees, hpairs, hentries⟩ :=
        Expr.readEntriesAs_asReadEntries d es h.2
      have he := (Expr.readAs_asRead d e h.1).conditional
      exact ⟨(key, ⟨e.tokens d, e.asRead, e.pairs d⟩) :: entries,
        by rw [List.map_cons, hparts, Expr.tokensEntries],
        by rw [List.map_cons, htrees, Expr.asReadEntries],
        by rw [List.map_cons, List.sum_cons, hpairs, Expr.pairsEntries],
        List.forall_mem_cons.2 ⟨he, hentries⟩⟩

end

theorem Expr.derives_tokens (d : Dialect) (e : Expr) (h : e.readable d) :
    Derives d .conditional (e.tokens d) e.asRead :=
  ⟨_, (e.readAs_asRead d h).conditional⟩

/-- The text of a readable expression can be cut into tokens, and these have
exactly one tree in the grammar: the expression as a reader sees it. -/
theorem Expr.derives_render_iff (d : Dialect) (e : Expr) (h : e.readable d) :
    ∃ ts, tokens? (e.render d).toList = some ts ∧
      ∀ t, Derives d .conditional ts t ↔ t = e.asRead := by
  have htext := Expr.spells_render d e h [] detached_nil
  have htree := e.derives_tokens d h
  refine ⟨e.tokens d, by simpa [tokens?_nil] using htext, fun t => ⟨fun ht => ht.unique htree, ?_⟩⟩
  rintro rfl
  exact htree

/-- A conditional of `not` before a comparison of negated numbers, with a
comparison of comparisons as its condition: it needs parentheses for the
number before a field and for both inner comparisons, and a blank between the
two minus signs. -/
theorem Expr.derives_render_iff_conditional :
    let e : Expr := .conditional
      (.binary .equal (.binary .elementOf (.name "a.b") (.name "c")) (.unary .not (.name "d")))
      (.unary .not (.binary .notEqual (.unary .negate (.member (.literal (.int 1)) "x"))
        (.unary .negate (.literal (.int (-2))))))
      (.index (.call (.name "f") [.literal (.int (-3))]) (.literal (.str "k")))
    e.render .python = "not -(1).x != - -2 if (a.b in c) == (not d) else f(-3)['k']" ∧
      e.readable .python ∧ ∃ ts, tokens? (e.render .python).toList = some ts ∧
        ∀ t, Derives .python .conditional ts t ↔ t = e.asRead := by
  intro e
  have hreadable : e.readable .python := by decide
  exact ⟨by decide, hreadable, Expr.derives_render_iff .python e hreadable⟩

end TargetCode
