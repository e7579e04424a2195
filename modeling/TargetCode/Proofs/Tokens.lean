import Mathlib.Data.List.MinMax
import Mathlib.Data.List.TakeWhile
import TargetCode.Proofs.QuotedText
import TargetCode.Settings

/-!
Tokens of the two source languages, and how a text is cut into them.

At every place the longest possible token is taken. One table of symbols
serves both languages; it holds every operator and delimiter of either, so
two symbols that are written next to each other are read as one wherever
one of the languages would do so. In particular `--` is a single token.
Words are not told apart here: which of them are keywords is a matter of the
grammar.
-/

namespace TargetCode

inductive Token where
  /-- A name or a keyword. -/
  | word (text : String)
  | number (value : Nat)
  | string (value : String)
  /-- An operator, a bracket or another mark. -/
  | symbol (text : String)
  deriving DecidableEq, Repr

namespace Token

def isBlank (c : Char) : Bool :=
  c = ' ' || c = '\t' || c = '\n' || c = '\r'

/-- Every character beyond ASCII counts as a letter, so that no name of
either language is left out. -/
def isLetter (c : Char) : Bool :=
  Settings.startsIdentifier c || 0x80 ≤ c.toNat

def continuesWord (c : Char) : Bool :=
  isLetter c || c.isDigit

/-- Whether a text is a single word. -/
def isWord : List Char → Bool
  | [] => false
  | c :: rest => isLetter c && rest.all continuesWord

/-- The operators and delimiters of both languages. -/
def symbols : List String :=
  ["(", ")", "[", "]", "\x7b", "\x7d", ".", "...", ",", ";", ":", ":=", "?", "?.", "??", "??=",
   "=", "==", "===", "=>", "!", "!=", "!==", "<", "<=", "<<", "<<=", ">", ">=", ">>", ">>=",
   ">>>", ">>>=", "+", "+=", "++", "-", "-=", "--", "->", "*", "*=", "**", "**=", "/", "/=",
   "//", "//=", "/*", "%", "%=", "@", "@=", "&", "&=", "&&", "&&=", "|", "|=", "||", "||=",
   "^", "^=", "~"]

/-- The longest symbol that a text starts with. -/
def longestSymbol? (cs : List Char) : Option String :=
  (symbols.filter fun w => w.toList.isPrefixOf cs).argmax fun w => w.toList.length

/-- Whether some symbol starts with the symbol `w` and the character `c`. -/
def joins (w : String) (c : Char) : Bool :=
  symbols.any fun w' => (w.toList ++ [c]).isPrefixOf w'.toList

/-- The body of a literal up to the closing quote, and what follows it. A
backslash takes the next character with it, and a line may not end inside. -/
def cutBody : List Char → Option (List Char × List Char)
  | [] => none
  | '\'' :: rest => some ([], rest)
  | '\\' :: c :: rest => (cutBody rest).map fun (body, rest) => ('\\' :: c :: body, rest)
  | '\n' :: _ => none
  | '\r' :: _ => none
  | c :: rest => (cutBody rest).map fun (body, rest) => (c :: body, rest)

/-! ### Cutting a text -/

/-- The longest token at the start of a text, and what follows it. -/
def next? : List Char → Option (Token × List Char)
  | [] => none
  | c :: rest =>
    if isLetter c then
      some (.word (String.ofList (c :: rest.takeWhile continuesWord)),
        rest.dropWhile continuesWord)
    else if c.isDigit then
      some (.number (Nat.ofDigitChars 10 (c :: rest.takeWhile Char.isDigit) 0),
        rest.dropWhile Char.isDigit)
    else if c = '\'' then
      (cutBody rest).bind fun (body, rest) =>
        (Text.decode body).map fun text => (.string (String.ofList text), rest)
    else
      (longestSymbol? (c :: rest)).map fun w => (.symbol w, (c :: rest).drop w.toList.length)

theorem cutBody_length_le {cs body rest : List Char} (h : cutBody cs = some (body, rest)) :
    rest.length ≤ cs.length := by
  fun_induction cutBody cs generalizing body rest <;>
    simp only [Option.map_eq_some_iff, Option.some.injEq, Prod.mk.injEq, Prod.exists,
      reduceCtorEq] at h <;> grind

theorem mem_symbols_of_longestSymbol? {cs : List Char} {w : String}
    (h : longestSymbol? cs = some w) : w ∈ symbols :=
  List.mem_of_mem_filter (List.argmax_mem h)

theorem next?_length_lt {cs rest : List Char} {t : Token} (h : next? cs = some (t, rest)) :
    rest.length < cs.length := by
  cases cs with
  | nil => simp [next?] at h
  | cons c cs =>
      simp only [next?] at h
      split_ifs at h
      · obtain ⟨-, rfl⟩ := by simpa using h
        simpa [Nat.lt_succ_iff] using List.length_dropWhile_le continuesWord cs
      · obtain ⟨-, rfl⟩ := by simpa using h
        simpa [Nat.lt_succ_iff] using List.length_dropWhile_le Char.isDigit cs
      · obtain ⟨⟨body, rest'⟩, hbody, htext⟩ := Option.bind_eq_some_iff.1 h
        obtain ⟨text, -, hrest⟩ := Option.map_eq_some_iff.1 htext
        obtain ⟨-, rfl⟩ := by simpa using hrest
        have := cutBody_length_le hbody
        simp only [List.length_cons]
        omega
      · obtain ⟨w, hw, hrest⟩ := Option.map_eq_some_iff.1 h
        obtain ⟨-, rfl⟩ := by simpa using hrest
        have hpos : ∀ w ∈ symbols, 0 < w.toList.length := by decide
        have := hpos w (mem_symbols_of_longestSymbol? hw)
        simp only [List.length_drop, List.length_cons]
        omega

/-- All tokens of a text, if it can be cut into tokens. -/
def tokens? (cs : List Char) : Option (List Token) :=
  match cs with
  | [] => some []
  | c :: rest =>
    if isBlank c then tokens? rest
    else
      match _h : next? (c :: rest) with
      | none => none
      | some (t, rest) => (tokens? rest).map (t :: ·)
termination_by cs.length
decreasing_by
  · simp
  · exact next?_length_lt _h

/-! ### One token at a time

A token is read off the front of a text whenever what follows it does not
make it longer. For a word or a number this means that no letter or digit
follows; a string literal closes itself. -/

/-- A text that does not continue a word or a number before it. -/
def Detached (rest : List Char) : Prop :=
  ∀ c ∈ rest.head?, continuesWord c = false

theorem detached_nil : Detached [] := by
  simp [Detached]

theorem detached_cons {c : Char} {rest : List Char} (h : continuesWord c = false) :
    Detached (c :: rest) := by
  simpa [Detached] using h

/-- A run of characters that words are made of ends before such a text. -/
theorem Detached.stop {rest : List Char} (h : Detached rest) {p : Char → Bool}
    (hp : ∀ c, p c → continuesWord c) : rest.takeWhile p = [] ∧ rest.dropWhile p = rest := by
  cases rest with
  | nil => simp
  | cons c rest =>
      have hc : continuesWord c = false := h c (by simp)
      have hstop : ¬p c := fun hpc => by simp [hp c hpc] at hc
      simp [hstop]

@[simp] theorem tokens?_nil : tokens? [] = some [] := by
  rw [tokens?]

theorem tokens?_blank {c : Char} (h : isBlank c) (rest : List Char) :
    tokens? (c :: rest) = tokens? rest := by
  rw [tokens?, if_pos h]

theorem tokens?_cons {c : Char} {cs rest : List Char} {t : Token} (hblank : isBlank c = false)
    (h : next? (c :: cs) = some (t, rest)) :
    tokens? (c :: cs) = (tokens? rest).map (t :: ·) := by
  rw [tokens?, if_neg (by simp [hblank])]
  split
  · simp_all
  · simp_all

theorem isBlank_eq_false_of_continuesWord {c : Char} (h : continuesWord c) : isBlank c = false := by
  by_contra hblank
  simp only [isBlank, Bool.not_eq_false, Bool.or_eq_true, decide_eq_true_eq] at hblank
  rcases hblank with ((rfl | rfl) | rfl) | rfl <;> exact absurd h (by decide)

theorem tokens?_word {w rest : List Char} (hw : isWord w) (hrest : Detached rest) :
    tokens? (w ++ rest) = (tokens? rest).map (.word (String.ofList w) :: ·) := by
  cases w with
  | nil => simp [isWord] at hw
  | cons c w =>
      obtain ⟨hc, hall⟩ := by simpa [isWord] using hw
      have hstop := hrest.stop (p := continuesWord) fun _ h => h
      apply tokens?_cons (isBlank_eq_false_of_continuesWord (by simp [continuesWord, hc]))
      simp [next?, hc, List.takeWhile_append_of_pos hall, List.dropWhile_append_of_pos hall, hstop]

theorem isLetter_eq_false_of_isDigit {c : Char} (h : c.isDigit) : isLetter c = false := by
  simp only [Char.isDigit, Bool.and_eq_true, decide_eq_true_eq, ge_iff_le,
    UInt32.le_iff_toNat_le] at h
  have hne : c ≠ '_' ∧ c ≠ '$' := by
    constructor <;> (rintro rfl; revert h; decide)
  have halpha : c.isAlpha = (decide (c.val ≥ 'A'.val ∧ c.val ≤ 'Z'.val) ||
      (c.val ≥ 'a'.val && c.val ≤ 'z'.val)) := rfl
  simp only [isLetter, Settings.startsIdentifier, halpha, Bool.or_eq_false_iff,
    Bool.and_eq_false_iff, decide_eq_false_iff_not, ge_iff_le, UInt32.le_iff_toNat_le, Char.toNat]
  simp only [Char.reduceVal, UInt32.reduceToNat] at h ⊢
  exact ⟨⟨⟨⟨by omega, by omega⟩, hne.1⟩, hne.2⟩, by omega⟩

theorem tokens?_number (n : Nat) {rest : List Char} (hrest : Detached rest) :
    tokens? ((Decimal.natural n).toList ++ rest) = (tokens? rest).map (.number n :: ·) := by
  have hvalue : Nat.ofDigitChars 10 (Decimal.natural n).toList 0 = n := by
    rw [Decimal.natural, Nat.toList_repr]
    exact Nat.ofDigitChars_ten_toDigits
  obtain ⟨c, cs, hdigits, hc, hcs⟩ := Decimal.exists_natural_eq_cons n
  have hstop := hrest.stop (p := Char.isDigit) fun _ h => by simp [continuesWord, h]
  rw [hdigits] at hvalue ⊢
  apply tokens?_cons (isBlank_eq_false_of_continuesWord (by simp [continuesWord, hc]))
  simp [next?, isLetter_eq_false_of_isDigit hc, hc, List.takeWhile_append_of_pos hcs,
    List.dropWhile_append_of_pos hcs, hstop, hvalue]

theorem cutBody_plain {c : Char} (hquote : c ≠ '\'') (hbackslash : c ≠ '\\')
    (hc : Text.StaysInLine c) (rest : List Char) :
    cutBody (c :: rest) = (cutBody rest).map fun (body, rest) => (c :: body, rest) := by
  have hfeed : c ≠ '\n' := by
    rintro rfl
    exact absurd hc (by decide)
  have hreturn : c ≠ '\r' := by
    rintro rfl
    exact absurd hc (by decide)
  rw [cutBody.eq_def]
  split <;> simp_all

/-- The body of a literal on one line ends at the quote behind it. -/
theorem cutBody_append {body : List Char} (h : Text.LiteralBody '\'' body)
    (hline : ∀ c ∈ body, Text.StaysInLine c) (rest : List Char) :
    cutBody (body ++ '\'' :: rest) = some (body, rest) := by
  induction h with
  | nil => rfl
  | plain hquote hbackslash _ ih =>
      obtain ⟨hc, hline⟩ := List.forall_mem_cons.1 hline
      rw [List.cons_append, cutBody_plain hquote hbackslash hc, ih hline]
      rfl
  | escape c _ ih =>
      have hrest := ih fun x hx => hline x (by simp [hx])
      simp [cutBody, hrest]

theorem tokens?_quote (s : String) (rest : List Char) :
    tokens? ((Text.quote s).toList ++ rest) = (tokens? rest).map (.string s :: ·) := by
  have hbody := cutBody_append (Text.literalBody_escaped s) (fun _ => Text.staysInLine_escaped) rest
  rw [Text.toList_quote, List.cons_append, List.append_assoc, List.singleton_append]
  apply tokens?_cons (by decide)
  simp [next?, hbody, Text.decode_escaped, show isLetter '\'' = false by decide,
    show Char.isDigit '\'' = false by decide]

theorem longestSymbol?_eq_some {w : String} {cs : List Char} (hw : w ∈ symbols)
    (hstart : w.toList <+: cs)
    (hlongest : ∀ w' ∈ symbols, w'.toList <+: cs → w'.toList.length ≤ w.toList.length) :
    longestSymbol? cs = some w := by
  have hmem : w ∈ symbols.filter fun w => w.toList.isPrefixOf cs := by
    simp [hw, hstart]
  cases hmax : longestSymbol? cs with
  | none =>
      rw [longestSymbol?, List.argmax_eq_none] at hmax
      simp [hmax] at hmem
  | some m =>
      have hm := List.argmax_mem hmax
      simp only [List.mem_filter, List.isPrefixOf_iff_prefix] at hm
      have hle := List.le_of_mem_argmax hmem hmax
      have hge := hlongest m hm.1 hm.2
      have hprefix := List.prefix_of_prefix_length_le hm.2 hstart hge
      have hsame : m.toList = w.toList := hprefix.eq_of_length (by omega)
      rw [String.toList_inj.1 hsame]

/-- A symbol is made of characters that start no other token. -/
theorem plain_of_mem_symbol {w : String} (hw : w ∈ symbols) {c : Char} (hc : c ∈ w.toList) :
    continuesWord c = false ∧ isBlank c = false ∧ c ≠ '\'' := by
  have hall : (symbols.all fun w => w.toList.all fun c =>
      !continuesWord c && !isBlank c && c ≠ '\'') = true := by decide
  have hplain := List.all_eq_true.1 (List.all_eq_true.1 hall w hw) c hc
  simpa [and_assoc] using hplain

/-- A symbol is read as such if no longer one starts with it and with the
character that follows it. -/
theorem tokens?_symbol {w : String} {rest : List Char} (hw : w ∈ symbols)
    (hrest : ∀ c ∈ rest.head?, joins w c = false) :
    tokens? (w.toList ++ rest) = (tokens? rest).map (.symbol w :: ·) := by
  have hlongest : longestSymbol? (w.toList ++ rest) = some w := by
    apply longestSymbol?_eq_some hw (List.prefix_append _ _)
    intro w' hw' hstart
    by_contra hlonger
    cases rest with
    | nil =>
        have := hstart.length_le
        simp at this
        omega
    | cons c rest =>
        -- A longer symbol would go on with the character after `w`.
        have hjoin : w.toList ++ [c] <+: w'.toList := by
          apply List.prefix_of_prefix_length_le _ hstart
          · simp; omega
          · exact ⟨rest, by simp⟩
        have := hrest c (by simp)
        simp only [joins, List.any_eq_false, List.isPrefixOf_iff_prefix] at this
        exact this w' hw' hjoin
  have hne : ∀ w ∈ symbols, w.toList ≠ [] := by decide
  obtain ⟨c, cs, hcs⟩ := List.exists_cons_of_ne_nil (hne w hw)
  obtain ⟨hword, hblank, hquote⟩ := plain_of_mem_symbol hw (hcs ▸ List.mem_cons_self)
  obtain ⟨hletter, hdigit⟩ := Bool.or_eq_false_iff.1 hword
  rw [hcs] at hlongest ⊢
  apply tokens?_cons hblank
  rw [List.cons_append] at hlongest
  simp [next?, hletter, hdigit, hquote, hlongest, hcs]

end Token

end TargetCode
