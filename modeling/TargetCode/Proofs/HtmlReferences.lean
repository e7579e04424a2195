import Mathlib.Logic.Function.Basic
import TargetCode.Text.Html

/-!
Escaped text and the references in it.

Text is escaped one character at a time, and five characters are written as
references. A reader who replaces the references from left to right and never
looks at a replacement again gets the text back, even where the text itself
looks like a reference. The texts that are read in this way without a loss are
those that hold no markup and have an ampersand only where a reference begins,
and each of them is the escaped form of exactly one text.
-/

namespace TargetCode.Text

/-- What the five characters with a meaning in markup are written as. -/
def references : List String :=
  ["&amp;", "&lt;", "&gt;", "&quot;", "&#39;"]

/-- References are replaced in one pass. All else stands for itself, also an
ampersand that begins none of them. -/
def readReferences : List Char → List Char
  | [] => []
  | '&' :: 'a' :: 'm' :: 'p' :: ';' :: rest => '&' :: readReferences rest
  | '&' :: 'l' :: 't' :: ';' :: rest => '<' :: readReferences rest
  | '&' :: 'g' :: 't' :: ';' :: rest => '>' :: readReferences rest
  | '&' :: 'q' :: 'u' :: 'o' :: 't' :: ';' :: rest => '"' :: readReferences rest
  | '&' :: '#' :: '3' :: '9' :: ';' :: rest => '\'' :: readReferences rest
  | c :: rest => c :: readReferences rest

def unescapeHtml (s : String) : String :=
  String.ofList (readReferences s.toList)

/-- A text that is no markup anywhere: it has neither angle brackets nor
quotes, and each ampersand begins a reference. -/
structure Inert (cs : List Char) : Prop where
  no_markup : ∀ c ∈ ['<', '>', '"', '\''], c ∉ cs
  reference : ∀ rest, '&' :: rest <:+ cs → ∃ r ∈ references, r.toList <+: '&' :: rest

theorem inert_nil : Inert [] :=
  ⟨by simp, by simp⟩

theorem Inert.of_suffix {cs rest : List Char} (h : Inert cs) (hrest : rest <:+ cs) : Inert rest :=
  ⟨fun c hc hmem => h.no_markup c hc (hrest.subset hmem),
    fun after hafter => h.reference after (hafter.trans hrest)⟩

theorem inert_cons_iff {c : Char} {cs : List Char} :
    Inert (c :: cs) ↔ c ∉ ['<', '>', '"', '\''] ∧
      (c = '&' → ∃ r ∈ references, r.toList <+: c :: cs) ∧ Inert cs := by
  constructor
  · intro h
    refine ⟨fun hc => h.no_markup c hc List.mem_cons_self, ?_, h.of_suffix (List.suffix_cons c cs)⟩
    rintro rfl
    exact h.reference cs (List.suffix_refl _)
  · rintro ⟨hc, hreference, hcs⟩
    constructor
    · intro x hx hmem
      rcases List.mem_cons.1 hmem with rfl | hmem
      · exact hc hx
      · exact hcs.no_markup x hx hmem
    · intro rest hrest
      rcases List.suffix_cons_iff.1 hrest with heq | hrest
      · obtain ⟨rfl, rfl⟩ := List.cons.inj heq
        exact hreference rfl
      · exact hcs.reference rest hrest

theorem inert_htmlChar_append (c : Char) {cs : List Char} (h : Inert cs) :
    Inert (htmlChar c ++ cs) := by
  unfold htmlChar
  split
  case h_6 => simp_all [inert_cons_iff]
  all_goals simp [inert_cons_iff, references, h]

theorem readReferences_cons {c : Char} (h : c ≠ '&') (cs : List Char) :
    readReferences (c :: cs) = c :: readReferences cs := by
  rw [readReferences.eq_def]
  split <;> simp_all

/-- However a character is written, it is read back, and what follows is read
as if it stood alone. -/
theorem readReferences_htmlChar_append (c : Char) (cs : List Char) :
    readReferences (htmlChar c ++ cs) = c :: readReferences cs := by
  unfold htmlChar
  split
  case h_6 hc _ _ _ _ => exact readReferences_cons hc cs
  all_goals rfl

theorem toList_escapeHtml (s : String) : (escapeHtml s).toList = s.toList.flatMap htmlChar :=
  String.toList_ofList

theorem inert_escapeHtml (s : String) : Inert (escapeHtml s).toList := by
  rw [toList_escapeHtml]
  induction s.toList with
  | nil => exact inert_nil
  | cons c cs ih => exact inert_htmlChar_append c ih

theorem unescapeHtml_escapeHtml : Function.LeftInverse unescapeHtml escapeHtml := by
  intro s
  rw [unescapeHtml, toList_escapeHtml]
  have hchars : readReferences (s.toList.flatMap htmlChar) = s.toList := by
    induction s.toList with
    | nil => rfl
    | cons c cs ih => rw [List.flatMap_cons, readReferences_htmlChar_append, ih]
  rw [hchars, String.ofList_toList]

theorem flatMap_htmlChar_cons {c : Char} {cs : List Char} (h : Inert (htmlChar c ++ cs))
    (ih : Inert cs → (readReferences cs).flatMap htmlChar = cs) :
    (c :: readReferences cs).flatMap htmlChar = htmlChar c ++ cs := by
  rw [List.flatMap_cons, ih (h.of_suffix (List.suffix_append _ _))]

/-- In an inert text every ampersand is part of a reference, so reading it
forgets nothing. -/
theorem flatMap_htmlChar_readReferences {cs : List Char} (h : Inert cs) :
    (readReferences cs).flatMap htmlChar = cs := by
  fun_induction readReferences cs with
  | case1 => rfl
  | case2 cs ih => exact flatMap_htmlChar_cons (c := '&') h ih
  | case3 cs ih => exact flatMap_htmlChar_cons (c := '<') h ih
  | case4 cs ih => exact flatMap_htmlChar_cons (c := '>') h ih
  | case5 cs ih => exact flatMap_htmlChar_cons (c := '"') h ih
  | case6 cs ih => exact flatMap_htmlChar_cons (c := '\'') h ih
  | case7 c cs hamp hlt hgt hquot hapos ih =>
      obtain ⟨hmarkup, hreference, -⟩ := inert_cons_iff.1 h
      -- An ampersand would begin a reference, and an earlier case would apply.
      have hc : c ≠ '&' := by
        rintro rfl
        obtain ⟨r, hr, after, heq⟩ := hreference rfl
        simp only [references, List.mem_cons, List.not_mem_nil, or_false] at hr
        rcases hr with rfl | rfl | rfl | rfl | rfl
        · exact hamp after rfl (List.cons.inj heq).2.symm
        · exact hlt after rfl (List.cons.inj heq).2.symm
        · exact hgt after rfl (List.cons.inj heq).2.symm
        · exact hquot after rfl (List.cons.inj heq).2.symm
        · exact hapos after rfl (List.cons.inj heq).2.symm
      have hchar : htmlChar c = [c] := by
        unfold htmlChar
        split <;> simp_all
      have hstep := @flatMap_htmlChar_cons c cs
      rw [hchar] at hstep
      exact hstep h ih

theorem escapeHtml_unescapeHtml {t : String} (h : Inert t.toList) :
    escapeHtml (unescapeHtml t) = t := by
  rw [escapeHtml, unescapeHtml, String.toList_ofList, flatMap_htmlChar_readReferences h,
    String.ofList_toList]

/-- Escaped text has no angle brackets and no quotes, and an ampersand only
where a reference begins. Replacing the references gives the text back, so no
two texts are escaped alike; and any text of this kind is the escaped form of
what it is read as. -/
theorem escaped_text_is_inert_and_read_back :
    (∀ s : String,
      (∀ c ∈ ['<', '>', '"', '\''], c ∉ (escapeHtml s).toList) ∧
      (∀ rest, '&' :: rest <:+ (escapeHtml s).toList →
        ∃ r ∈ ["&amp;", "&lt;", "&gt;", "&quot;", "&#39;"], r.toList <+: '&' :: rest) ∧
      unescapeHtml (escapeHtml s) = s) ∧
    Function.Injective escapeHtml ∧
    ∀ t : String, (∃ s, escapeHtml s = t) ↔ Inert t.toList := by
  refine ⟨fun s => ?_, unescapeHtml_escapeHtml.injective, fun t => ?_⟩
  · have hinert := inert_escapeHtml s
    exact ⟨hinert.no_markup, hinert.reference, unescapeHtml_escapeHtml s⟩
  · constructor
    · rintro ⟨s, rfl⟩
      exact inert_escapeHtml s
    · intro h
      exact ⟨unescapeHtml t, escapeHtml_unescapeHtml h⟩

/-- A text that looks escaped already is escaped once more. -/
example : escapeHtml "&amp;lt;" = "&amp;amp;lt;" ∧ unescapeHtml "&amp;amp;lt;" = "&amp;lt;" := by
  decide

end TargetCode.Text
