import TargetCode.Proofs.Hoisting
import TargetCode.Proofs.Rendering

/-!
Which lines JavaScript reads as expression statements.

A line that starts with a brace is the start of a block there, whatever
follows. Parentheses are written for the operators around an expression only,
so nothing keeps an object at the very start of a line from being taken for a
block. Whether there is one is decided along the first operands of the
expression: a parenthesis in front of any of them protects all that is
inside. Every other line, on every page, is read back as its expression.
-/

namespace TargetCode

open Token

/-- The words that are no names in JavaScript, those of strict code
included. -/
def reserved : List String :=
  ["await", "break", "case", "catch", "class", "const", "continue", "debugger", "default",
   "delete", "do", "else", "enum", "export", "extends", "false", "finally", "for", "function",
   "if", "implements", "import", "in", "instanceof", "interface", "let", "new", "null", "package",
   "private", "protected", "public", "return", "static", "super", "switch", "this", "throw",
   "true", "try", "typeof", "var", "void", "while", "with", "yield"]

/-- Tokens that open a block or a declaration where a statement is
expected, so that no expression may start with them there. -/
inductive OpensOtherStatement : List Token → Prop
  | block (rest : List Token) : OpensOtherStatement (.symbol "\x7b" :: rest)
  | function (rest : List Token) : OpensOtherStatement (.word "function" :: rest)
  | asyncFunction (rest : List Token) :
      OpensOtherStatement (.word "async" :: .word "function" :: rest)
  | classBody (rest : List Token) : OpensOtherStatement (.word "class" :: rest)
  | letPattern (rest : List Token) : OpensOtherStatement (.word "let" :: .symbol "[" :: rest)

/-- An expression and a semicolon, read as a statement. -/
inductive ExpressionStatement : List Token → Expr → Prop
  | mk {ts : List Token} {e : Expr} (he : Derives .javascript .conditional ts e)
      (hts : ¬OpensOtherStatement ts) : ExpressionStatement (ts ++ [.symbol ";"]) e

theorem expressionStatement_iff {ts : List Token} {e : Expr} :
    ExpressionStatement (ts ++ [.symbol ";"]) e ↔
      Derives .javascript .conditional ts e ∧ ¬OpensOtherStatement ts := by
  constructor
  · intro h
    generalize hline : ts ++ [Token.symbol ";"] = line at h
    obtain ⟨he, hts⟩ := h
    obtain rfl := List.append_cancel_right hline
    exact ⟨he, hts⟩
  · rintro ⟨he, hts⟩
    exact .mk he hts

namespace Expr

mutual

/-- The names of an expression, those in dotted paths one by one. Attached
statements do not matter. -/
def words : Expr → List (List Char)
  | .literal _ => []
  | .name path => Settings.splitDots path.toList
  | .unary _ e => e.words
  | .binary _ l r => l.words ++ r.words
  | .conditional c t f => c.words ++ (t.words ++ f.words)
  | .call f args => f.words ++ wordsAll args
  | .member e field => e.words ++ [field.toList]
  | .index e key => e.words ++ key.words
  | .array es => wordsAll es
  | .object entries => wordsEntries entries
  | .hoisted _ e => e.words
termination_by structural e => e

def wordsAll : List Expr → List (List Char)
  | [] => []
  | e :: es => e.words ++ wordsAll es
termination_by structural es => es

def wordsEntries : List (String × Expr) → List (List Char)
  | [] => []
  | (_, e) :: es => e.words ++ wordsEntries es
termination_by structural es => es

end

/-- Every name is a word, and none is reserved. -/
def IdentifierNames (e : Expr) : Prop :=
  ∀ w ∈ e.words, isWord w ∧ String.ofList w ∉ reserved

instance (e : Expr) : Decidable e.IdentifierNames :=
  inferInstanceAs (Decidable (∀ w ∈ e.words, isWord w ∧ String.ofList w ∉ reserved))

/-! ### What comes first -/

/-- An object comes first in the text, with no parenthesis before it. -/
def OpensWithObject (e : Expr) : Prop :=
  ∃ entries, e.opening? .javascript = some (.object entries)

end Expr

/-- A list that is not empty, whose first element is `mark` exactly if `p`
holds. -/
def HeadIs {α : Type} (mark : α) (p : Prop) (xs : List α) : Prop :=
  ∃ x more, xs = x :: more ∧ (x = mark ↔ p)

section HeadIs

variable {α : Type} {mark : α} {p : Prop}

theorem headIs_cons_of_ne {x : α} {xs : List α} (hx : x ≠ mark) (hp : ¬p) :
    HeadIs mark p (x :: xs) :=
  ⟨x, xs, rfl, iff_of_false hx hp⟩

theorem HeadIs.append {xs : List α} (h : HeadIs mark p xs) (ys : List α) :
    HeadIs mark p (xs ++ ys) := by
  obtain ⟨x, more, rfl, hx⟩ := h
  exact ⟨x, more ++ ys, rfl, hx⟩

theorem HeadIs.eq_cons_iff {xs : List α} (h : HeadIs mark p xs) :
    (∃ more, xs = mark :: more) ↔ p := by
  obtain ⟨x, more, rfl, hx⟩ := h
  simp [← hx]

end HeadIs

namespace Expr

theorem eq_brace_iff_of_starts {part : Option Expr} {c : Char}
    (h : Starts (isLetter ·) part c) : c = '\x7b' ↔ ∃ entries, part = some (.object entries) := by
  constructor
  · rintro rfl
    -- No other part starts with a brace.
    match part with
    | none => exact absurd (show '\x7b' = '(' from h) (by decide)
    | some (.literal (.str _)) => exact absurd (show '\x7b' = '\'' from h) (by decide)
    | some (.literal (.int _)) => exact absurd (show StartsValue '\x7b' from h) (by decide)
    | some (.literal (.float _)) => exact absurd (show StartsValue '\x7b' from h) (by decide)
    | some (.literal (.bool _)) => exact absurd (show StartsValue '\x7b' from h) (by decide)
    | some (.literal .null) => exact absurd (show StartsValue '\x7b' from h) (by decide)
    | some (.name _) => exact absurd (show isLetter '\x7b' from h) (by decide)
    | some (.unary _ _) => exact absurd (show '\x7b' ∈ ['!', '-', 'n'] from h) (by decide)
    | some (.array _) => exact absurd (show '\x7b' = '[' from h) (by decide)
    | some (.object entries) => exact ⟨entries, rfl⟩
  · rintro ⟨entries, rfl⟩
    exact h

theorem identifierNames_of_leading? {e a : Expr} {wrap : Bool}
    (h : e.leading? .javascript = some (wrap, a)) (he : e.IdentifierNames) :
    a.IdentifierNames := by
  have hwords : a.words ⊆ e.words := by
    cases e <;> simp only [leading?, Option.some.injEq, Prod.mk.injEq, reduceCtorEq] at h <;>
      obtain ⟨-, rfl⟩ := h <;> simp [words]
  exact fun w hw => he w (hwords hw)

/-- The text of an expression starts with a brace exactly if an object comes
first in it. -/
theorem headIs_render {e : Expr} (hnames : e.IdentifierNames) :
    HeadIs '\x7b' e.OpensWithObject (e.render .javascript).toList := by
  have hname : ∀ path, e.opening? .javascript = some (.name path) →
      FirstChar (isLetter ·) path.toList := by
    intro path hpath
    have hwords := opening?_inherits identifierNames_of_leading? hpath hnames
    exact firstChar_path fun w hw => (hwords w hw).1
  obtain ⟨c, cs, htext, hc⟩ := firstChar_render hname
  exact ⟨c, cs, htext, eq_brace_iff_of_starts hc⟩

/-- The tokens of the part that comes first. -/
def openingTokens : Option Expr → List Token
  | none => [.symbol "("]
  | some part => part.tokens .javascript

theorem tokens_of_leading? {e a : Expr} {wrap : Bool}
    (h : e.leading? .javascript = some (wrap, a)) :
    ∃ rest, e.tokens .javascript = grouped wrap (a.tokens .javascript) ++ rest := by
  cases e <;> simp only [leading?, Option.some.injEq, Prod.mk.injEq, reduceCtorEq] at h <;>
    obtain ⟨rfl, rfl⟩ := h
  case hoisted => exact ⟨[], (List.append_nil _).symm⟩
  all_goals exact ⟨_, rfl⟩

theorem exists_tokens_eq (e : Expr) :
    ∃ rest, e.tokens .javascript = openingTokens (e.opening? .javascript) ++ rest := by
  fun_induction opening? .javascript e with
  | case1 e hleaf => exact ⟨[], (List.append_nil _).symm⟩
  | case2 e a hleading =>
      obtain ⟨rest, htokens⟩ := tokens_of_leading? hleading
      exact ⟨_, htokens⟩
  | case3 e wrap a hleading hwrap ih =>
      obtain ⟨rest, htokens⟩ := tokens_of_leading? hleading
      obtain ⟨more, hmore⟩ := ih
      rw [Bool.not_eq_true] at hwrap
      subst hwrap
      refine ⟨more ++ rest, ?_⟩
      rw [htokens, ← List.append_assoc, ← hmore]
      rfl

theorem headIs_literalTokens {p : Prop} (hp : ¬p) {v : Literal}
    (h : (Expr.literal v).readable .javascript) :
    HeadIs (.symbol "\x7b") p (Dialect.javascript.literalTokens v) := by
  cases v with
  | int i =>
      rw [Dialect.literalTokens]
      split
      · exact headIs_cons_of_ne (by decide) hp
      · exact headIs_cons_of_ne (by simp) hp
  | float x => simp [readable] at h
  | str s => exact headIs_cons_of_ne (by simp) hp
  | bool b => exact headIs_cons_of_ne (by simp) hp
  | null => exact headIs_cons_of_ne (by simp) hp

theorem headIs_openingTokens {e : Expr} (hreadable : e.readable .javascript) :
    HeadIs (.symbol "\x7b") e.OpensWithObject (openingTokens (e.opening? .javascript)) := by
  unfold OpensWithObject
  cases hpart : e.opening? .javascript with
  | none => exact headIs_cons_of_ne (by decide) (by simp)
  | some part =>
      have hleaf := leading?_of_opening? hpart
      have hreadable := opening?_inherits readable_of_leading? hpart hreadable
      match part with
      | .literal v => exact headIs_literalTokens (by simp) hreadable
      | .name path =>
          obtain ⟨w, parts, hparts⟩ := List.exists_cons_of_ne_nil (splitDots_ne_nil path.toList)
          rw [openingTokens, tokens, hparts, pathTokens_cons]
          exact headIs_cons_of_ne (by simp) (by simp)
      | .unary o e => exact headIs_cons_of_ne (by cases o <;> decide) (by simp)
      | .array es => exact headIs_cons_of_ne (by decide) (by simp)
      | .object entries => exact ⟨_, _, rfl, by simp⟩

theorem headIs_tokens {e : Expr} (hreadable : e.readable .javascript) :
    HeadIs (.symbol "\x7b") e.OpensWithObject (e.tokens .javascript) := by
  obtain ⟨rest, htokens⟩ := e.exists_tokens_eq
  rw [htokens]
  exact (headIs_openingTokens hreadable).append _

/-! ### Words in the text -/

theorem word_mem_grouped {w : String} {wrap : Bool} {ts : List Token}
    (h : .word w ∈ grouped wrap ts) : .word w ∈ ts := by
  cases wrap <;> simpa [grouped] using h

theorem word_mem_separated {w : String} {parts : List (List Token)}
    (h : .word w ∈ separated parts) : ∃ ts ∈ parts, .word w ∈ ts := by
  induction parts with
  | nil => simp [separated] at h
  | cons ts parts ih =>
      cases parts with
      | nil => exact ⟨ts, by simp, by simpa [separated] using h⟩
      | cons us parts =>
          rw [separated, List.intercalate_cons_cons, ← separated] at h
          simp only [List.mem_append, List.mem_singleton, reduceCtorEq, or_false] at h
          rcases h with h | h
          · exact ⟨ts, by simp, h⟩
          · obtain ⟨vs, hvs, hw⟩ := ih h
            exact ⟨vs, by simp [hvs], hw⟩

theorem word_mem_pathTokens {w : String} {parts : List (List Char)}
    (h : .word w ∈ pathTokens parts) : w.toList ∈ parts := by
  cases parts with
  | nil => simp [pathTokens] at h
  | cons part parts =>
      rw [pathTokens_cons] at h
      simp only [List.mem_append, Token.word.injEq, List.mem_flatMap, List.mem_cons, reduceCtorEq,
        false_or, List.not_mem_nil, or_false] at h
      rcases h with rfl | ⟨part', hpart', rfl⟩
      · simp
      · simp [hpart']

theorem word_mem_literalTokens {w : String} {v : Literal}
    (h : .word w ∈ Dialect.javascript.literalTokens v) : w ∈ Dialect.javascript.keywords := by
  cases v with
  | int i =>
      rw [Dialect.literalTokens] at h
      split at h <;> simp at h
  | float x => simp [Dialect.literalTokens] at h
  | str s => simp [Dialect.literalTokens] at h
  | bool b =>
      obtain rfl : w = Dialect.javascript.literal (.bool b) := by
        simpa [Dialect.literalTokens] using h
      cases b <;> decide
  | null =>
      obtain rfl : w = Dialect.javascript.literal .null := by
        simpa [Dialect.literalTokens] using h
      decide

theorem word_eq_binaryToken {w : String} {o : BinaryOperator}
    (h : .word w = Dialect.javascript.binaryToken o) : w ∈ Dialect.javascript.keywords := by
  cases o <;> simp_all [Dialect.binaryToken, Dialect.keywords]

mutual

/-- Every word in the text is a name of the expression or a word of the
language. -/
theorem word_mem_tokens {w : String} : ∀ e : Expr, .word w ∈ e.tokens .javascript →
    w.toList ∈ e.words ∨ w ∈ Dialect.javascript.keywords
  | .literal v, h => .inr (word_mem_literalTokens h)
  | .name path, h => .inl (word_mem_pathTokens h)
  | .unary o e, h => by
      rw [tokens, List.mem_cons] at h
      rcases h with h | h
      · cases o <;> simp [Dialect.unaryToken] at h
      · exact word_mem_tokens e (word_mem_grouped h)
  | .binary o l r, h => by
      simp only [tokens, List.mem_append, List.mem_cons] at h
      rcases h with h | h | h
      · exact (word_mem_tokens l (word_mem_grouped h)).imp_left (List.mem_append_left _)
      · exact .inr (word_eq_binaryToken h)
      · exact (word_mem_tokens r (word_mem_grouped h)).imp_left (List.mem_append_right _)
  | .conditional c t f, h => by
      simp only [tokens, List.mem_append, List.mem_cons, reduceCtorEq, false_or] at h
      rcases h with h | h | h
      · exact (word_mem_tokens c (word_mem_grouped h)).imp_left (List.mem_append_left _)
      · exact (word_mem_tokens t (word_mem_grouped h)).imp_left fun hw =>
          List.mem_append_right _ (List.mem_append_left _ hw)
      · exact (word_mem_tokens f (word_mem_grouped h)).imp_left fun hw =>
          List.mem_append_right _ (List.mem_append_right _ hw)
  | .call f args, h => by
      simp only [tokens, List.mem_append, List.mem_cons, reduceCtorEq, false_or,
        List.not_mem_nil, or_false] at h
      rcases h with h | h
      · exact (word_mem_tokens f (word_mem_grouped h)).imp_left (List.mem_append_left _)
      · exact (word_mem_tokensAll args (word_mem_separated h)).imp_left
          (List.mem_append_right _)
  | .member e field, h => by
      simp only [tokens, List.mem_append, List.mem_cons, reduceCtorEq, false_or, Token.word.injEq,
        List.not_mem_nil, or_false] at h
      rcases h with h | rfl
      · exact (word_mem_tokens e (word_mem_grouped h)).imp_left (List.mem_append_left _)
      · exact .inl (by simp [words])
  | .index e key, h => by
      simp only [tokens, List.mem_append, List.mem_cons, reduceCtorEq, false_or,
        List.not_mem_nil, or_false] at h
      rcases h with h | h
      · exact (word_mem_tokens e (word_mem_grouped h)).imp_left (List.mem_append_left _)
      · exact (word_mem_tokens key h).imp_left (List.mem_append_right _)
  | .array es, h => by
      simp only [tokens, List.mem_append, List.mem_cons, reduceCtorEq, false_or,
        List.not_mem_nil, or_false] at h
      exact word_mem_tokensAll es (word_mem_separated h)
  | .object entries, h => by
      simp only [tokens, List.mem_append, List.mem_cons, reduceCtorEq, false_or,
        List.not_mem_nil, or_false] at h
      exact word_mem_tokensEntries entries (word_mem_separated h)
  | .hoisted _ e, h => word_mem_tokens e h

theorem word_mem_tokensAll {w : String} : ∀ es : List Expr,
    (∃ ts ∈ tokensAll .javascript es, .word w ∈ ts) →
    w.toList ∈ wordsAll es ∨ w ∈ Dialect.javascript.keywords
  | [], h => by simp [tokensAll] at h
  | e :: es, h => by
      simp only [tokensAll, List.mem_cons, exists_eq_or_imp] at h
      rcases h with h | h
      · exact (word_mem_tokens e h).imp_left (List.mem_append_left _)
      · exact (word_mem_tokensAll es h).imp_left (List.mem_append_right _)

theorem word_mem_tokensEntries {w : String} : ∀ es : List (String × Expr),
    (∃ ts ∈ tokensEntries .javascript es, .word w ∈ ts) →
    w.toList ∈ wordsEntries es ∨ w ∈ Dialect.javascript.keywords
  | [], h => by simp [tokensEntries] at h
  | (key, e) :: es, h => by
      simp only [tokensEntries, List.mem_cons, exists_eq_or_imp, reduceCtorEq, false_or] at h
      rcases h with h | h
      · exact (word_mem_tokens e h).imp_left (List.mem_append_left _)
      · exact (word_mem_tokensEntries es h).imp_left (List.mem_append_right _)

end

theorem opensOtherStatement_tokens_iff {e : Expr} (hnames : e.IdentifierNames)
    (hreadable : e.readable .javascript) :
    OpensOtherStatement (e.tokens .javascript) ↔ e.OpensWithObject := by
  -- None of the words that open a declaration stands anywhere in the text.
  have hword : ∀ w, w ∈ ["function", "class", "let"] → .word w ∉ e.tokens .javascript := by
    intro w hw hmem
    have hreserved : ∀ w ∈ ["function", "class", "let"], w ∈ reserved := by decide
    have hkeywords : ∀ w ∈ ["function", "class", "let"], w ∉ Dialect.javascript.keywords := by
      decide
    rcases word_mem_tokens e hmem with hname | hkeyword
    · have := (hnames _ hname).2
      rw [String.ofList_toList] at this
      exact this (hreserved w hw)
    · exact hkeywords w hw hkeyword
  rw [← (headIs_tokens hreadable).eq_cons_iff]
  constructor
  · intro h
    generalize e.tokens .javascript = ts at h hword
    cases h with
    | block rest => exact ⟨rest, rfl⟩
    | function rest => exact absurd (by simp) (hword "function" (by simp))
    | asyncFunction rest => exact absurd (by simp) (hword "function" (by simp))
    | classBody rest => exact absurd (by simp) (hword "class" (by simp))
    | letPattern rest => exact absurd (by simp) (hword "let" (by simp))
  · rintro ⟨rest, hrest⟩
    rw [hrest]
    exact .block rest

end Expr

/-! ### Lines -/

namespace Statement

theorem tokens?_line {e : Expr} (doc : Option String) (h : e.readable .javascript) :
    tokens? ((expression e doc).line .javascript).toList =
      some (e.tokens .javascript ++ [.symbol ";"]) := by
  have hend : tokens? (";".toList ++ []) = some [.symbol ";"] := by
    rw [tokens?_symbol (by decide) (by simp), tokens?_nil]
    rfl
  have htext := e.spells_render .javascript h ";".toList (detached_cons (by decide))
  rw [List.append_nil] at hend
  rw [line, String.toList_append, show Dialect.javascript.statementEnd = ";" from rfl, htext, hend]
  rfl

/-- The line of an expression statement starts with a brace exactly if an
object comes first in the expression; otherwise, and only then, it is read
as an expression statement, and as that of its expression. -/
theorem line_reads {e : Expr} (doc : Option String) (hnames : e.IdentifierNames) :
    (((expression e doc).line .javascript).toList.head? = some '\x7b' ↔ e.OpensWithObject) ∧
      (e.readable .javascript →
        ∃ ts, tokens? ((expression e doc).line .javascript).toList = some ts ∧
          ∀ t, ExpressionStatement ts t ↔ t = e.asRead ∧ ¬e.OpensWithObject) := by
  constructor
  · obtain ⟨c, cs, htext, hc⟩ := Expr.headIs_render hnames
    rw [line, String.toList_append, htext, ← hc]
    simp
  · intro hreadable
    refine ⟨_, tokens?_line doc hreadable, fun t => ?_⟩
    have htree := e.derives_tokens .javascript hreadable
    rw [expressionStatement_iff, Expr.opensOtherStatement_tokens_iff hnames hreadable]
    constructor
    · rintro ⟨ht, hopens⟩
      exact ⟨ht.unique htree, hopens⟩
    · rintro ⟨rfl, hopens⟩
      exact ⟨htree, hopens⟩

/-- A statement as a text of its own is what a draft writes for it alone. -/
theorem code_eq_finish (d : Dialect) (e : Expr) (doc : Option String) :
    (expression e doc).code d =
      (((Draft.blank d).indentedBy d.defaultIndent).run [.append (.expression e doc)]).finish :=
  rfl

end Statement

namespace Draft

/-- On every page in JavaScript, the line of an expression statement starts
with a brace exactly if an object comes first in the expression. Such a line
is no expression statement at all, and every other one is that of its
expression. What is appended has its lines there, and a statement as a text
of its own is such a page. -/
theorem expression_line_opens_block_iff (unit : String) (steps : List Step) :
    let start := (blank .javascript).indentedBy unit
    let entries := start.entries 0 (steps ++ [.flush])
    ((start.run steps).finish = String.join (entries.map (Entry.text .javascript unit)) ∧
      (∀ s ∈ steps.flatMap Step.statements, ∀ t ∈ s.leaves, t ∈ entries.map Entry.statement) ∧
      ∀ entry ∈ entries, ∀ e doc, entry.statement = .expression e doc → e.IdentifierNames →
        ((entry.statement.line .javascript).toList.head? = some '\x7b' ↔ e.OpensWithObject) ∧
        (e.readable .javascript →
          ∃ ts, tokens? (entry.statement.line .javascript).toList = some ts ∧
            ∀ t, ExpressionStatement ts t ↔ t = e.asRead ∧ ¬e.OpensWithObject)) ∧
      ∀ e doc, (Statement.expression e doc).code .javascript =
        (((blank .javascript).indentedBy Dialect.javascript.defaultIndent).run
          [.append (.expression e doc)]).finish := by
  intro start entries
  have hfinal : (start.run steps).flush.Holds .javascript unit _ entries _ :=
    holds_finish .javascript unit steps
  refine ⟨⟨hfinal.text_eq, ?_, ?_⟩, Statement.code_eq_finish .javascript⟩
  · intro s hs t ht
    exact hfinal.mem_of_pending_nil rfl hs ht
  · intro entry _ e doc hentry hnames
    rw [hentry]
    exact Statement.line_reads doc hnames

/-- An object alone is written without parentheses, and its line is not read
as an expression statement. -/
theorem object_line_opens_block :
    let e : Expr := .object [("k", .literal (.int 1))]
    e.IdentifierNames ∧ e.code .javascript = "\x7b'k': 1\x7d;\n" ∧
      (e.code .javascript).toList.head? = some '\x7b' ∧
      ∀ ts, tokens? ((Statement.expression e none).line .javascript).toList = some ts →
        ∀ t, ¬ExpressionStatement ts t := by
  intro e
  have hnames : e.IdentifierNames := by decide
  have hcode : e.code .javascript = "\x7b'k': 1\x7d;\n" := by
    rw [Expr.code, Statement.code, Page.write_expression]
    rfl
  refine ⟨hnames, hcode, by rw [hcode]; decide, ?_⟩
  intro ts hts t ht
  obtain ⟨ts', hts', hreads⟩ := (Statement.line_reads none hnames).2 (by decide)
  obtain rfl := Option.some.inj (hts.symm.trans hts')
  exact ((hreads t).1 ht).2 ⟨_, Expr.opening?_eq_bare rfl⟩

end Draft

end TargetCode
