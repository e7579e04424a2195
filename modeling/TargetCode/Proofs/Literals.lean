import Mathlib.Data.Char
import TargetCode.Invocation
import TargetCode.Proofs.FirstCharacter

/-!
Which texts are taken for string literals.

The scanner looks at bytes, but it finds the literals of characters: a quote,
items that are a plain character or a backslash with the character after it,
and the same quote. A quoted text is one of these and nothing that goes on
behind it is, so among the texts of expressions and of operands only those of
string literals are taken for one.
-/

namespace TargetCode

namespace Text

/-- The byte of an ASCII character. -/
def byte (c : Char) : UInt8 :=
  UInt8.ofNat c.toNat

theorem utf8EncodeChar_ascii {c : Char} (h : c.toNat < 128) :
    String.utf8EncodeChar c = [byte c] := by
  have hle : c.val.toNat ≤ 127 := Nat.le_of_lt_succ h
  rw [String.utf8EncodeChar, if_pos hle]
  rfl

theorem le_of_mem_utf8EncodeChar {c : Char} (h : 128 ≤ c.toNat) {b : UInt8}
    (hb : b ∈ String.utf8EncodeChar c) : 128 ≤ b.toNat := by
  have hle : ¬c.val.toNat ≤ 127 := Nat.not_le.2 h
  simp only [String.utf8EncodeChar, if_neg hle] at hb
  split_ifs at hb <;>
  · simp only [List.mem_cons, List.not_mem_nil, or_false] at hb
    rcases hb with rfl | rfl | rfl | rfl <;>
    · rw [UInt8.toNat_ofNat']
      omega

theorem byte_toNat {c : Char} (h : c.toNat < 128) : (byte c).toNat = c.toNat := by
  simp only [byte, UInt8.toNat_ofNat']
  omega

/-- The byte of an ASCII character occurs in the encoding of no other
character. -/
theorem eq_of_byte_mem {c q : Char} (hq : q.toNat < 128)
    (h : byte q ∈ String.utf8EncodeChar c) : c = q := by
  by_cases hc : c.toNat < 128
  · rw [utf8EncodeChar_ascii hc, List.mem_singleton] at h
    apply Char.toNat_inj.1
    rw [← byte_toNat hc, ← byte_toNat hq, h]
  · have := le_of_mem_utf8EncodeChar (Nat.not_lt.1 hc) h
    rw [byte_toNat hq] at this
    omega

/-! ### The scanner -/

/-- What may stand between two quotes `q`: characters other than `q`, and
pairs of a backslash and any character. -/
inductive LiteralBody (q : Char) : List Char → Prop
  | nil : LiteralBody q []
  | plain {c : Char} {rest : List Char} (hq : c ≠ q) (hb : c ≠ '\\') (h : LiteralBody q rest) :
      LiteralBody q (c :: rest)
  | escape (c : Char) {rest : List Char} (h : LiteralBody q rest) :
      LiteralBody q ('\\' :: c :: rest)

def IsQuote (q : Char) : Prop :=
  q = '\'' ∨ q = '"'

theorem IsQuote.lt {q : Char} (h : IsQuote q) : q.toNat < 128 := by
  rcases h with rfl | rfl <;> decide

theorem literalBody_cons_iff {q c : Char} {rest : List Char} (hc : c ≠ '\\') :
    LiteralBody q (c :: rest) ↔ c ≠ q ∧ LiteralBody q rest := by
  constructor
  · rintro (_ | ⟨hq, _, h⟩ | _)
    · exact ⟨hq, h⟩
    · contradiction
  · rintro ⟨hq, h⟩
    exact .plain hq hc h

theorem literalBody_escape_iff {q c : Char} {rest : List Char} :
    LiteralBody q ('\\' :: c :: rest) ↔ LiteralBody q rest := by
  constructor
  · rintro (_ | ⟨_, hb, _⟩ | ⟨_, h⟩)
    · contradiction
    · exact h
  · exact .escape c

theorem closesAtEnd_cons {q b : UInt8} {rest : List UInt8} (hb : b ≠ backslash) :
    closesAtEnd q (b :: rest) = (b ≠ q && closesAtEnd q rest) := by
  cases rest <;> simp [closesAtEnd, hb]

theorem closesAtEnd_append {q : UInt8} {bs rest : List UInt8}
    (h : ∀ b ∈ bs, b ≠ q ∧ b ≠ backslash) : closesAtEnd q (bs ++ rest) = closesAtEnd q rest := by
  induction bs with
  | nil => rfl
  | cons b bs ih =>
      obtain ⟨⟨hq, hb⟩, hrest⟩ := List.forall_mem_cons.1 h
      rw [List.cons_append, closesAtEnd_cons hb, ih hrest]
      simp [hq]

/-- A character other than the backslash is passed over unless it is the
quote. -/
theorem closesAtEnd_char {q c : Char} {rest : List UInt8} (hq : IsQuote q) (hc : c ≠ '\\') :
    closesAtEnd (byte q) (String.utf8EncodeChar c ++ rest) = true ↔
      c ≠ q ∧ closesAtEnd (byte q) rest = true := by
  by_cases hcq : c = q
  · subst c
    rw [utf8EncodeChar_ascii hq.lt, List.singleton_append, closesAtEnd_cons]
    · simp
    · rcases hq with rfl | rfl <;> decide
  · rw [closesAtEnd_append]
    · simp [hcq]
    · intro b hb
      constructor
      · rintro rfl
        exact hcq (eq_of_byte_mem hq.lt hb)
      · rintro rfl
        exact hc (eq_of_byte_mem (q := '\\') (by decide) hb)

/-- A backslash takes the whole next character with it: the bytes of that
character after its first are never quotes or backslashes. -/
theorem closesAtEnd_escape {q : Char} (c : Char) {rest : List UInt8} (hq : IsQuote q) :
    closesAtEnd (byte q) (backslash :: (String.utf8EncodeChar c ++ rest)) =
      closesAtEnd (byte q) rest := by
  obtain ⟨first, others, hbytes⟩ :=
    List.exists_cons_of_ne_nil (String.utf8EncodeChar_ne_nil (c := c))
  rw [hbytes, List.cons_append, closesAtEnd, if_pos rfl]
  by_cases hc : c.toNat < 128
  · rw [utf8EncodeChar_ascii hc, List.cons.injEq] at hbytes
    rw [← hbytes.2, List.nil_append]
  · apply closesAtEnd_append
    intro b hb
    have hle : 128 ≤ b.toNat :=
      le_of_mem_utf8EncodeChar (Nat.not_lt.1 hc) (hbytes ▸ List.mem_cons_of_mem _ hb)
    constructor
    · rintro rfl
      rw [byte_toNat hq.lt] at hle
      exact absurd hq.lt (Nat.not_lt.2 hle)
    · rintro rfl
      exact absurd hle (by decide)

theorem closesAtEnd_iff {q : Char} (hq : IsQuote q) : ∀ cs : List Char,
    closesAtEnd (byte q) (cs.flatMap String.utf8EncodeChar) = true ↔ LiteralBody q cs
  | [] => ⟨fun _ => .nil, fun _ => rfl⟩
  | [c] => by
      by_cases hc : c = '\\'
      · subst c
        constructor
        · intro h
          exact absurd h (by rcases hq with rfl | rfl <;> decide)
        · rintro (_ | ⟨_, hb, _⟩ | _)
          contradiction
      · rw [List.flatMap_cons, closesAtEnd_char hq hc, closesAtEnd_iff hq [],
          literalBody_cons_iff hc]
  | c :: c' :: rest => by
      by_cases hc : c = '\\'
      · subst c
        rw [List.flatMap_cons, List.flatMap_cons, literalBody_escape_iff, ← closesAtEnd_iff hq rest]
        exact Bool.eq_iff_iff.1 (closesAtEnd_escape c' hq)
      · rw [List.flatMap_cons, closesAtEnd_char hq hc, closesAtEnd_iff hq (c' :: rest),
          literalBody_cons_iff hc]

/-- If the last byte is the one of an ASCII character, that character comes
last. -/
theorem exists_concat_of_getLast? {cs : List Char} {q : Char} (hq : q.toNat < 128)
    (h : (cs.flatMap String.utf8EncodeChar).getLast? = some (byte q)) :
    ∃ body, cs = body ++ [q] := by
  rcases cs.eq_nil_or_concat with rfl | ⟨body, c, rfl⟩
  · simp at h
  · rw [List.concat_eq_append] at h ⊢
    obtain ⟨b, hb⟩ := Option.ne_none_iff_exists'.1
      (mt List.getLast?_eq_none_iff.1 (String.utf8EncodeChar_ne_nil (c := c)))
    rw [List.flatMap_append, List.flatMap_singleton, List.getLast?_append, hb] at h
    rw [Option.some_or, Option.some.injEq] at h
    have hc : c = q := eq_of_byte_mem hq (h ▸ List.mem_of_getLast? hb)
    exact ⟨body, by rw [hc]⟩

/-- A text is taken for a literal if it is one, character by character. -/
theorem isLiteral_iff (s : String) : isLiteral s = true ↔
    ∃ q body, IsQuote q ∧ LiteralBody q body ∧ s.toList = q :: (body ++ [q]) := by
  constructor
  · intro h
    unfold isLiteral utf8 at h
    cases hs : s.toList with
    | nil =>
        rw [hs] at h
        exact absurd h (by decide)
    | cons c cs =>
        obtain ⟨first, others, hbytes⟩ :=
          List.exists_cons_of_ne_nil (String.utf8EncodeChar_ne_nil (c := c))
        rw [hs, List.flatMap_cons, hbytes, List.cons_append] at h
        simp only [isLiteralBytes, Bool.and_eq_true, Bool.or_eq_true, decide_eq_true_eq] at h
        obtain ⟨⟨hfirst, hlast⟩, hclose⟩ := h
        -- A quote among the bytes of a character is that whole character.
        have hq : IsQuote c ∧ first = byte c := by
          rcases hfirst with rfl | rfl
          · have hc : c = '\'' := eq_of_byte_mem (by decide) (hbytes ▸ List.mem_cons_self)
            exact ⟨.inl hc, by rw [hc]; rfl⟩
          · have hc : c = '"' := eq_of_byte_mem (by decide) (hbytes ▸ List.mem_cons_self)
            exact ⟨.inr hc, by rw [hc]; rfl⟩
        obtain ⟨hq, rfl⟩ := hq
        rw [utf8EncodeChar_ascii hq.lt, List.cons.injEq] at hbytes
        rw [← hbytes.2, List.nil_append] at hlast hclose
        obtain ⟨body, rfl⟩ := exists_concat_of_getLast? hq.lt hlast
        rw [List.flatMap_append, List.flatMap_singleton, utf8EncodeChar_ascii hq.lt,
          List.dropLast_concat, closesAtEnd_iff hq] at hclose
        exact ⟨c, body, hq, hclose, rfl⟩
  · rintro ⟨q, body, hq, hbody, hs⟩
    have hbyte : byte q = singleQuote ∨ byte q = doubleQuote := by
      rcases hq with rfl | rfl <;> decide
    have hclose := (closesAtEnd_iff hq body).2 hbody
    have hlast : (body.flatMap String.utf8EncodeChar ++ [byte q]).getLast? = some (byte q) := by
      simp
    simp only [isLiteral, utf8, hs, List.flatMap_cons, List.flatMap_append, List.flatMap_nil,
      utf8EncodeChar_ascii hq.lt, List.append_nil, List.singleton_append, isLiteralBytes, hlast,
      List.dropLast_concat, hclose]
    simpa using hbyte

/-! ### Quoted texts -/

/-- The text between the quotes of a quoted text. -/
def escaped (s : String) : String :=
  String.ofList (s.toList.flatMap quotedChar)

theorem toList_quote (s : String) :
    (quote s).toList = '\'' :: ((escaped s).toList ++ ['\'']) := by
  simp [quote, escaped]

theorem LiteralBody.append {q : Char} {cs rest : List Char} (h : LiteralBody q cs)
    (hrest : LiteralBody q rest) : LiteralBody q (cs ++ rest) := by
  induction h with
  | nil => exact hrest
  | plain hq hb _ ih => exact .plain hq hb ih
  | escape c _ ih => exact .escape c ih

theorem LiteralBody.not_append_quote {q : Char} (hq : q ≠ '\\') {cs rest : List Char}
    (h : LiteralBody q cs) : ¬LiteralBody q (cs ++ q :: rest) := by
  induction h with
  | nil =>
      rw [List.nil_append, literalBody_cons_iff hq]
      exact fun h => h.1 rfl
  | plain _ hb _ ih =>
      rw [List.cons_append, literalBody_cons_iff hb]
      exact fun h => ih h.2
  | escape c _ ih =>
      rw [List.cons_append, List.cons_append, literalBody_escape_iff]
      exact ih

theorem literalBody_digits {q : Char} (hq : IsQuote q) {ns : List Nat} (h : ∀ n ∈ ns, n < 16) :
    LiteralBody q (ns.map Nat.digitChar) := by
  induction ns with
  | nil => exact .nil
  | cons n ns ih =>
      obtain ⟨hn, hns⟩ := List.forall_mem_cons.1 h
      have hdigit : ∀ n < 16, Nat.digitChar n ≠ '\'' ∧ Nat.digitChar n ≠ '"' ∧
          Nat.digitChar n ≠ '\\' := by decide
      obtain ⟨hsingle, hdouble, hbackslash⟩ := hdigit n hn
      refine .plain ?_ hbackslash (ih hns)
      rcases hq with rfl | rfl
      · exact hsingle
      · exact hdouble

theorem literalBody_quotedChar (c : Char) : LiteralBody '\'' (quotedChar c) := by
  unfold quotedChar
  split
  · exact .escape _ .nil
  · exact .escape _ .nil
  · exact .escape _ .nil
  · exact .escape _ .nil
  · exact .escape _ .nil
  · split
    · refine .escape _ (literalBody_digits (.inl rfl) fun n hn => ?_)
      simp only [List.mem_cons, List.not_mem_nil, or_false] at hn
      omega
    · exact .plain (by assumption) (by assumption) .nil

theorem literalBody_escaped (s : String) : LiteralBody '\'' (escaped s).toList := by
  rw [escaped, String.toList_ofList]
  induction s.toList with
  | nil => exact .nil
  | cons c cs ih => exact (literalBody_quotedChar c).append ih

theorem isLiteral_quote (s : String) : isLiteral (quote s) = true :=
  (isLiteral_iff _).2 ⟨'\'', _, .inl rfl, literalBody_escaped s, toList_quote s⟩

theorem quotedChar_ne_nil (c : Char) : quotedChar c ≠ [] := by
  unfold quotedChar
  split
  case h_6 => split <;> simp
  all_goals simp

theorem escaped_eq_empty_iff (s : String) : escaped s = "" ↔ s = "" := by
  constructor
  · intro h
    have hnil : s.toList.flatMap quotedChar = [] := by
      rw [← String.toList_ofList (l := s.toList.flatMap quotedChar), ← escaped, h]
      rfl
    cases hs : s.toList with
    | nil => exact String.toList_inj.1 hs
    | cons c cs =>
        rw [hs, List.flatMap_cons, List.append_eq_nil_iff] at hnil
        exact absurd hnil.1 (quotedChar_ne_nil c)
  · rintro rfl
    rfl

/-- The quotes come off again, except that nothing is left of an empty
literal. -/
theorem body?_quote (s : String) :
    body? (quote s) = if s = "" then none else some (escaped s) := by
  have hempty : (escaped s).toList = [] ↔ s = "" := by
    rw [← escaped_eq_empty_iff, ← String.toList_inj]
    rfl
  by_cases hs : s = ""
  · subst s
    rfl
  · have hne : (escaped s).toList ≠ [] := mt hempty.1 hs
    simp [body?, isLiteral_quote, toList_quote, hne, hs]

/-- What goes on behind a quoted text is not one literal. -/
theorem isLiteral_quote_append {s rest : String} (h : rest ≠ "") :
    isLiteral (quote s ++ rest) = false := by
  rw [Bool.eq_false_iff, ne_eq, isLiteral_iff]
  rintro ⟨q, body, hq, hbody, heq⟩
  rw [String.toList_append, toList_quote, List.cons_append, List.cons.injEq] at heq
  obtain ⟨rfl, heq⟩ := heq
  -- The first quote behind the escaped text lies inside the body.
  obtain ⟨init, c, hrest⟩ : ∃ init c, rest.toList = init ++ [c] := by
    rcases rest.toList.eq_nil_or_concat with hnil | ⟨init, c, hrest⟩
    · exact absurd (String.toList_inj.1 hnil) h
    · exact ⟨init, c, by rw [hrest, List.concat_eq_append]⟩
  rw [hrest, ← List.append_assoc] at heq
  have hinit := (List.append_inj' heq rfl).1
  rw [← hinit, List.append_assoc] at hbody
  exact (literalBody_escaped s).not_append_quote (by decide) hbody

/-! ### Texts that are no literal -/

/-- Whether a text starts with a character other than a quote. -/
def startsPlain (cs : List Char) : Bool :=
  cs.head?.any fun c => c ≠ '\'' && c ≠ '"'

/-- Neither of the two quotes. -/
def IsPlain (c : Char) : Prop :=
  c ≠ '\'' ∧ c ≠ '"'

instance (c : Char) : Decidable (IsPlain c) :=
  inferInstanceAs (Decidable (_ ∧ _))

theorem startsPlain_iff {text : List Char} : startsPlain text ↔ FirstChar IsPlain text := by
  cases text <;> simp [startsPlain, FirstChar, IsPlain]

theorem isPlain_of_startsValue {c : Char} (h : StartsValue c) : IsPlain c := by
  constructor <;> rintro rfl <;> exact absurd h (by decide)

theorem isLiteral_eq_false_of_firstChar {text : String} (h : FirstChar IsPlain text.toList) :
    isLiteral text = false := by
  rw [Bool.eq_false_iff, ne_eq, isLiteral_iff]
  rintro ⟨q, body, hq, -, heq⟩
  obtain ⟨c, cs, htext, hsingle, hdouble⟩ := h
  rw [htext, List.cons.injEq] at heq
  obtain ⟨rfl, -⟩ := heq
  rcases hq with rfl | rfl
  · exact hsingle rfl
  · exact hdouble rfl

end Text

open Text

/-- A text is spelled like a literal exactly if there is a string value that
it was written for. -/
inductive Spelled : Option String → String → Prop
  | quoted (s : String) : Spelled (some s) (quote s)
  | other {text : String} (h : isLiteral text = false) : Spelled none text

/-! ### Expressions -/

mutual

/-- Whether every name in an expression starts with something else than a
quote, as identifiers and dotted paths do. -/
def Expr.plainNames : Expr → Bool
  | .literal _ => true
  | .name path => startsPlain path.toList
  | .unary _ e => e.plainNames
  | .binary _ l r => l.plainNames && r.plainNames
  | .conditional c t f => c.plainNames && t.plainNames && f.plainNames
  | .call f args => f.plainNames && Expr.plainNamesAll args
  | .member e _ => e.plainNames
  | .index e key => e.plainNames && key.plainNames
  | .array es => Expr.plainNamesAll es
  | .object entries => Expr.plainNamesEntries entries
  | .hoisted _ e => e.plainNames
termination_by structural e => e

def Expr.plainNamesAll : List Expr → Bool
  | [] => true
  | e :: es => e.plainNames && Expr.plainNamesAll es
termination_by structural es => es

def Expr.plainNamesEntries : List (String × Expr) → Bool
  | [] => true
  | (_, e) :: es => e.plainNames && Expr.plainNamesEntries es
termination_by structural es => es

end

theorem Expr.plainNames_of_leading? {d : Dialect} {e a : Expr} {wrap : Bool}
    (h : e.leading? d = some (wrap, a)) (he : e.plainNames) : a.plainNames := by
  cases e <;> cases d <;>
    simp only [leading?, Option.some.injEq, Prod.mk.injEq, reduceCtorEq] at h <;>
    obtain ⟨-, rfl⟩ := h <;> simp_all [plainNames]

/-- Among the parts that can come first only string literals start with a
quote. -/
theorem Expr.isPlain_of_starts {part : Option Expr} {c : Char} (h : Starts IsPlain part c)
    (hquoted : ∀ s, part ≠ some (.literal (.str s))) : IsPlain c := by
  have hmark : ∀ c ∈ ['(', '!', '-', 'n', '[', '\x7b'], IsPlain c := by simp [IsPlain]
  match part with
  | none => exact hmark c (by simp [show c = '(' from h])
  | some (.literal (.str s)) => exact absurd rfl (hquoted s)
  | some (.literal (.int _)) => exact isPlain_of_startsValue h
  | some (.literal (.float _)) => exact isPlain_of_startsValue h
  | some (.literal (.bool _)) => exact isPlain_of_startsValue h
  | some (.literal .null) => exact isPlain_of_startsValue h
  | some (.name _) => exact h
  | some (.unary _ _) =>
      have hc : c = '!' ∨ c = '-' ∨ c = 'n' := by simpa [Starts] using h
      rcases hc with rfl | rfl | rfl <;> exact hmark _ (by simp)
  | some (.array _) => exact hmark c (by simp [show c = '[' from h])
  | some (.object _) => exact hmark c (by simp [show c = '\x7b' from h])

theorem Expr.bare_eq_of_string? {e : Expr} {s : String} (h : e.string? = some s) :
    e.bare = .literal (.str s) := by
  unfold string? at h
  split at h
  · next hbare => rw [hbare, Option.some.inj h]
  · contradiction

/-- Only string literals are written as one literal. What comes first in the
text of any other expression is a string literal with more text behind it, or
a part that starts with no quote. -/
theorem Expr.spelled_render (d : Dialect) (e : Expr) (h : e.plainNames) :
    Spelled e.string? (e.render d) := by
  have hname : ∀ path, e.opening? d = some (.name path) → FirstChar IsPlain path.toList :=
    fun path hpath => startsPlain_iff.1 (opening?_inherits plainNames_of_leading? hpath h)
  have hstring : ∀ s, e.string? = some s → e.opening? d = some e.bare := by
    intro s hs
    apply opening?_eq_bare
    rw [bare_eq_of_string? hs]
    rfl
  obtain ⟨rest, htext, hrest⟩ := e.exists_render_eq d
  by_cases hquoted : ∃ s, e.opening? d = some (.literal (.str s))
  · obtain ⟨s, hs⟩ := hquoted
    rw [hs] at htext hrest
    -- The literal is all of the text, or the text goes on behind it.
    by_cases hempty : rest = ""
    · have hbare : e.bare = .literal (.str s) := (Option.some.inj (hrest.1 hempty)).symm
      rw [htext, hempty, String.append_empty, string?, hbare]
      exact .quoted s
    · have hnone : e.string? = none := by
        by_contra hsome
        obtain ⟨t, ht⟩ := Option.ne_none_iff_exists'.1 hsome
        exact hempty (hrest.2 (hs ▸ hstring t ht))
      rw [htext, hnone]
      exact .other (isLiteral_quote_append hempty)
  · have hnone : e.string? = none := by
      by_contra hsome
      obtain ⟨t, ht⟩ := Option.ne_none_iff_exists'.1 hsome
      exact hquoted ⟨t, bare_eq_of_string? ht ▸ hstring t ht⟩
    rw [hnone]
    refine .other (isLiteral_eq_false_of_firstChar ((firstChar_render hname).mono fun c hc => ?_))
    exact isPlain_of_starts hc fun s hs => hquoted ⟨s, hs⟩

theorem firstChar_text {value : Constant} (h : ∀ s, value ≠ .str s) :
    FirstChar IsPlain value.text.toList := by
  cases value with
  | str s => exact absurd rfl (h s)
  | int i => exact (Decimal.firstChar_integer i).mono fun _ => isPlain_of_startsValue
  | float x =>
      simp only [Constant.text, Binary64.text]
      split_ifs
      · exact firstChar_cons (by decide)
      · exact firstChar_cons (by decide)
      · exact firstChar_cons (by decide)
      · exact (firstChar_finiteText x).mono fun _ => isPlain_of_startsValue
  | bool b => cases b <;> exact firstChar_cons (by decide)
  | null => exact firstChar_cons (by decide)
  | strings values =>
      rw [Constant.text, String.append_assoc, String.toList_append]
      exact firstChar_cons (c := '[') (by decide)

theorem isLiteral_append_parenthesis (text : String) : isLiteral (text ++ ")") = false := by
  rw [Bool.eq_false_iff, ne_eq, isLiteral_iff]
  rintro ⟨q, body, hq, -, heq⟩
  rw [String.toList_append, ← List.cons_append] at heq
  have hlast := (List.append_inj' heq rfl).2
  rcases hq with rfl | rfl <;> exact absurd hlast (by decide)

/-- Of all operands only string constants are written as one literal. The
text of a result may start with any characters, but it ends in a
parenthesis. -/
theorem Operand.spelled_text : ∀ o : Operand, Spelled o.string? o.text
  | .variable slot => by
      refine .other (isLiteral_eq_false_of_firstChar ?_)
      rw [Operand.text, String.toList_append]
      exact firstChar_cons (by decide)
  | .global name slot => by
      refine .other (isLiteral_eq_false_of_firstChar ?_)
      rw [Operand.text, String.toList_append]
      exact firstChar_cons (by decide)
  | .constant value => by
      by_cases hv : ∃ s, value = .str s
      · obtain ⟨s, rfl⟩ := hv
        exact .quoted s
      · have hnone : (Operand.constant value).string? = none := by
          cases value <;> simp_all [Operand.string?]
        rw [hnone]
        exact .other (isLiteral_eq_false_of_firstChar (firstChar_text fun s hs => hv ⟨s, hs⟩))
  | .result method receiver args => by
      refine .other ?_
      cases receiver with
      | none => exact isLiteral_append_parenthesis _
      | some receiver => exact isLiteral_append_parenthesis _

end TargetCode
