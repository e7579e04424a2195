import TargetCode.Proofs.Literals

/-!
What a quoted text stands for.

JavaScript and Python read some escapes in a string literal alike: a backslash
before a quote, a backslash, `n`, `r` or `t`, and `u` with the four digits of a
code. Quoting a text writes no others, and writes every character that would
end the literal or its line as one of them. So the body of the literal is read
back as the text itself, and two texts are never quoted alike.
-/

namespace TargetCode

namespace Text

/-- The value of a hexadecimal digit, in either case. -/
def hexValue? (c : Char) : Option Nat :=
  if '0' ≤ c ∧ c ≤ '9' then some (c.toNat - 48)
  else if 'a' ≤ c ∧ c ≤ 'f' then some (c.toNat - 87)
  else if 'A' ≤ c ∧ c ≤ 'F' then some (c.toNat - 55)
  else none

/-- The character whose code has these four digits. Half of a surrogate pair
is no character. -/
def codedChar? (a b c d : Char) : Option Char := do
  let code := 4096 * (← hexValue? a) + 256 * (← hexValue? b) + 16 * (← hexValue? c) +
    (← hexValue? d)
  if code.isValidChar then some (Char.ofNat code) else none

/-- The character that a backslash and the character after it stand for. -/
def escapedChar? : Char → Option Char
  | '\'' => some '\''
  | '\\' => some '\\'
  | 'n' => some '\n'
  | 'r' => some '\r'
  | 't' => some '\t'
  | _ => none

/-- The text that the body of a literal stands for, if it has no other escapes
than those that JavaScript and Python share. -/
def decode : List Char → Option (List Char)
  | [] => some []
  | '\\' :: 'u' :: a :: b :: c :: d :: rest =>
    (codedChar? a b c d).bind fun x => (decode rest).map (x :: ·)
  | '\\' :: c :: rest => (escapedChar? c).bind fun x => (decode rest).map (x :: ·)
  | ['\\'] => none
  | c :: rest => (decode rest).map (c :: ·)

/-- A character that neither ends a line nor is a control character. -/
def StaysInLine (c : Char) : Prop :=
  0x20 ≤ c.toNat ∧ c ≠ '\u2028' ∧ c ≠ '\u2029'

instance (c : Char) : Decidable (StaysInLine c) :=
  inferInstanceAs (Decidable (_ ∧ _))

theorem hexValue?_digitChar {n : Nat} (h : n < 16) : hexValue? (Nat.digitChar n) = some n := by
  have hall : ∀ n < 16, hexValue? (Nat.digitChar n) = some n := by decide
  exact hall n h

/-- The four digits of a code stand for the character that they were made
from. -/
theorem decode_fourHex {c : Char} (h : c.toNat < 65536) (rest : List Char) :
    decode ('\\' :: 'u' :: (fourHex c.toNat ++ rest)) = (decode rest).map (c :: ·) := by
  have hdigit : ∀ m, hexValue? (Nat.digitChar (m % 16)) = some (m % 16) := fun m =>
    hexValue?_digitChar (Nat.mod_lt m (by omega))
  have hsum : 4096 * (c.toNat / 4096 % 16) + 256 * (c.toNat / 256 % 16) +
      16 * (c.toNat / 16 % 16) + c.toNat % 16 = c.toNat := by omega
  show decode ('\\' :: 'u' :: _ :: _ :: _ :: _ :: rest) = _
  simp only [decode, codedChar?, hdigit, bind, Option.bind_some, hsum, Char.ofNat_toNat]
  rw [if_pos (show c.toNat.isValidChar from c.valid), Option.bind_some]

theorem decode_plain {c : Char} (h : c ≠ '\\') (rest : List Char) :
    decode (c :: rest) = (decode rest).map (c :: ·) := by
  rw [decode.eq_def]
  split <;> simp_all

/-- However a character is written, it is read back, and what follows is read
as if it stood alone. -/
theorem decode_quotedChar (c : Char) (rest : List Char) :
    decode (quotedChar c ++ rest) = (decode rest).map (c :: ·) := by
  unfold quotedChar
  split
  · rfl
  · rfl
  · rfl
  · rfl
  · rfl
  · next hquote hbackslash _ _ _ =>
    split
    · next hcoded =>
      apply decode_fourHex
      simp only [Bool.or_eq_true, decide_eq_true_eq] at hcoded
      rcases hcoded with (hsmall | rfl) | rfl
      · omega
      · decide
      · decide
    · exact decode_plain hbackslash rest

theorem staysInLine_of_mem_quotedChar {c x : Char} (h : x ∈ quotedChar c) : StaysInLine x := by
  have hmarks : ∀ x ∈ ['\\', '\'', 'n', 'r', 't', 'u'], StaysInLine x := by simp [StaysInLine]
  have hdigits : ∀ n < 16, StaysInLine (Nat.digitChar n) := by decide
  unfold quotedChar at h
  split at h
  case h_6 =>
    split at h
    · rw [List.mem_cons, List.mem_cons, fourHex, List.mem_map] at h
      rcases h with rfl | rfl | ⟨n, hn, rfl⟩
      · exact hmarks _ (by simp)
      · exact hmarks _ (by simp)
      · apply hdigits
        simp only [List.mem_cons, List.not_mem_nil, or_false] at hn
        omega
    · next hplain =>
      obtain rfl := List.mem_singleton.1 h
      simp only [Bool.or_eq_true, decide_eq_true_eq, not_or, not_lt] at hplain
      exact ⟨hplain.1.1, hplain.1.2, hplain.2⟩
  all_goals
    rw [List.mem_cons, List.mem_singleton] at h
    rcases h with rfl | rfl <;> exact hmarks _ (by simp)

theorem decode_escaped (s : String) : decode (escaped s).toList = some s.toList := by
  rw [escaped, String.toList_ofList]
  induction s.toList with
  | nil => rfl
  | cons c cs ih => rw [List.flatMap_cons, decode_quotedChar, ih, Option.map_some]

theorem staysInLine_escaped {s : String} {c : Char} (h : c ∈ (escaped s).toList) :
    StaysInLine c := by
  rw [escaped, String.toList_ofList, List.mem_flatMap] at h
  obtain ⟨_, -, hc⟩ := h
  exact staysInLine_of_mem_quotedChar hc

theorem escaped_injective : Function.Injective escaped := by
  intro s t h
  have hs := decode_escaped s
  rw [h, decode_escaped] at hs
  exact (String.toList_inj.1 (Option.some.inj hs)).symm

theorem quote_injective : Function.Injective quote := by
  intro s t h
  have hchars := congrArg String.toList h
  rw [toList_quote, toList_quote, List.cons.injEq, List.append_cancel_right_eq] at hchars
  exact escaped_injective (String.toList_inj.1 hchars.2)

/-- A quoted text is one literal on one line, its body is read back as the
text, and no other text is quoted in the same way. This is how string literals
and the keys of objects are written in both languages, and string constants of
invocations. -/
theorem quoted_text_is_read_back :
    Function.Injective quote ∧
    (∀ s : String, isLiteral (quote s) = true ∧
      ∃ body, (quote s).toList = '\'' :: (body ++ ['\'']) ∧ LiteralBody '\'' body ∧
        (∀ c ∈ body, StaysInLine c) ∧ decode body = some s.toList) ∧
    (∀ (d : Dialect) (s : String), (Expr.literal (.str s)).render d = quote s) ∧
    (∀ (d : Dialect) (entries : List (String × Expr)),
      (Expr.object entries).render d =
        "\x7b" ++ ", ".intercalate (entries.map fun entry =>
          quote entry.1 ++ ": " ++ entry.2.render d) ++ "\x7d") ∧
    ∀ s : String, (Operand.constant (.str s)).text = quote s := by
  refine ⟨quote_injective, fun s => ⟨isLiteral_quote s, ?_⟩, fun _ _ => rfl, fun d entries => ?_,
    fun _ => rfl⟩
  · exact ⟨_, toList_quote s, literalBody_escaped s, fun _ => staysInLine_escaped,
      decode_escaped s⟩
  · rw [Expr.render, Expr.renderEntries_eq_map]
    rfl

end Text

end TargetCode
