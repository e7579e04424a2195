import Mathlib.Data.List.Chain
import TargetCode.Settings

/-!
What the two languages make of a documentation header.

In JavaScript a header is one block comment, whatever the text: the mark that
would close it occurs nowhere before its end, neither in the text nor where
pieces of it meet the rest.

In Python a header is a comment on each of its lines. The text is cut at line
feeds, but Python also ends a line at a carriage return that stands alone, and
nothing is written after one of these. So the header is a comment exactly if
every such carriage return in the text is followed by a comment of its own.
-/

namespace TargetCode

/-- Only blanks and tabs are in an indent. -/
theorem Settings.not_mem_of_isIndent {indent : String} (h : isIndent indent) {c : Char}
    (hblank : c ≠ ' ') (htab : c ≠ '\t') : c ∉ indent.toList := by
  intro hc
  have hall := List.all_eq_true.1 h c hc
  simp [hblank, htab] at hall

namespace Text

/-- The line that ends at a line feed, when `seen` was read before it. -/
def endedLine (seen : List Char) : List Char :=
  match seen with
  | '\r' :: line => line.reverse
  | line => line.reverse

theorem linesFrom_feed (seen rest : List Char) :
    linesFrom seen ('\n' :: rest) = endedLine seen :: linesFrom [] rest := by
  rw [linesFrom.eq_def]
  rfl

theorem linesFrom_cons {c : Char} (hc : c ≠ '\n') (seen rest : List Char) :
    linesFrom seen (c :: rest) = linesFrom (c :: seen) rest := by
  rw [linesFrom.eq_def]
  split <;> simp_all

theorem endedLine_prefix_reverse (seen : List Char) : endedLine seen <+: seen.reverse := by
  unfold endedLine
  split
  · rw [List.reverse_cons]
    exact List.prefix_append _ _
  · exact List.prefix_rfl

theorem infix_of_mem_linesFrom {line seen cs : List Char} (h : line ∈ linesFrom seen cs) :
    line <:+: seen.reverse ++ cs := by
  induction cs generalizing seen with
  | nil =>
      rw [linesFrom] at h
      split at h
      · simp at h
      · obtain rfl := List.mem_singleton.1 h
        exact (List.prefix_append _ _).isInfix
  | cons c rest ih =>
      by_cases hc : c = '\n'
      · subst c
        rw [linesFrom_feed] at h
        rcases List.mem_cons.1 h with rfl | h
        · exact ((endedLine_prefix_reverse seen).trans (List.prefix_append _ _)).isInfix
        · have hrest : rest <:+ seen.reverse ++ '\n' :: rest := ⟨seen.reverse ++ ['\n'], by simp⟩
          exact (ih h).trans hrest.isInfix
      · rw [linesFrom_cons hc] at h
        simpa using ih h

theorem feed_not_mem_linesFrom {line seen cs : List Char} (hseen : '\n' ∉ seen)
    (h : line ∈ linesFrom seen cs) : '\n' ∉ line := by
  induction cs generalizing seen with
  | nil =>
      rw [linesFrom] at h
      split at h
      · simp at h
      · simpa [List.mem_singleton.1 h] using hseen
  | cons c rest ih =>
      by_cases hc : c = '\n'
      · subst c
        rw [linesFrom_feed] at h
        rcases List.mem_cons.1 h with rfl | h
        · intro hfeed
          exact hseen (List.mem_reverse.1 ((endedLine_prefix_reverse seen).subset hfeed))
        · exact ih (by simp) h
      · rw [linesFrom_cons hc] at h
        exact ih (by simp [hseen, Ne.symm hc]) h

theorem infix_of_mem_lines {line s : String} (h : line ∈ lines s) :
    line.toList <:+: s.toList := by
  obtain ⟨cs, hcs, rfl⟩ := List.mem_map.1 h
  rw [String.toList_ofList]
  exact infix_of_mem_linesFrom hcs

theorem infix_trim (s : String) : (trim s).toList <:+: s.toList := by
  rw [trim, String.toList_ofList]
  have hend := (List.dropWhile_suffix isBlank (l := (s.toList.dropWhile isBlank).reverse))
  rw [← List.reverse_prefix, List.reverse_reverse] at hend
  exact hend.isInfix.trans (List.dropWhile_suffix isBlank).isInfix

/-- Two neighbours that do not close a block comment. -/
def Apart (a b : Char) : Prop :=
  ¬(a = '*' ∧ b = '/')

/-- A text that closes no block comment. -/
def StaysOpen (cs : List Char) : Prop :=
  cs.IsChain Apart

/-- What follows the first mark that closes a block comment. -/
def afterClose? : List Char → Option (List Char)
  | [] => none
  | '*' :: '/' :: rest => some rest
  | _ :: rest => afterClose? rest

/-- What follows the block comment that a text starts with. -/
def afterComment? : List Char → Option (List Char)
  | '/' :: '*' :: rest => afterClose? rest
  | _ => none

theorem staysOpen_of_not_mem {cs : List Char} (h : '*' ∉ cs) : StaysOpen cs := by
  apply List.isChain_iff_forall_rel_of_append_cons_cons.2
  rintro a b before after rfl ⟨rfl, -⟩
  simp at h

/-- Texts may be joined unless a star and a slash meet at the seam. -/
theorem StaysOpen.append {xs ys : List Char} (hxs : StaysOpen xs) (hys : StaysOpen ys)
    (h : xs.getLast? ≠ some '*' ∨ ys.head? ≠ some '/') : StaysOpen (xs ++ ys) := by
  apply List.IsChain.append hxs hys
  rintro a ha b hb ⟨rfl, rfl⟩
  rcases h with h | h
  · exact h ha
  · exact h hb

/-- A star at the end closes nothing yet, so the first mark is the one that it
begins. -/
theorem afterClose?_append {cs : List Char} (h : StaysOpen (cs ++ ['*'])) (rest : List Char) :
    afterClose? (cs ++ '*' :: '/' :: rest) = some rest := by
  induction cs with
  | nil => rfl
  | cons c cs ih =>
      rw [List.cons_append] at h ⊢
      have hnext : ∀ more, c = '*' → cs ++ '*' :: '/' :: rest = '/' :: more → False := by
        intro more hc hmore
        apply (List.isChain_cons.1 h).1 '/' _ ⟨hc, rfl⟩
        cases cs with
        | nil => simp at hmore
        | cons d cs => simpa using (List.cons.inj hmore).1
      rw [afterClose?.eq_3 _ _ hnext]
      exact ih h.tail

/-- The only mark is the one at the end. -/
theorem eq_of_close {cs before after : List Char} (h : StaysOpen (cs ++ ['*']))
    (heq : cs ++ ['*', '/', '\n'] = before ++ '*' :: '/' :: after) : after = ['\n'] := by
  have hopen := List.isChain_iff_forall_rel_of_append_cons_cons.1 h
  rcases after.eq_nil_or_concat with rfl | ⟨more, c, rfl⟩
  · have hlast := congrArg List.getLast? heq
    simp at hlast
  · rw [List.concat_eq_append] at heq ⊢
    have hfeed : cs ++ ['*', '/'] ++ ['\n'] = before ++ '*' :: '/' :: more ++ [c] := by
      simpa using heq
    obtain ⟨hcut, hc⟩ := List.append_inj' hfeed rfl
    obtain rfl := List.singleton_inj.1 hc
    rcases more.eq_nil_or_concat with rfl | ⟨more, c, rfl⟩
    · rfl
    · rw [List.concat_eq_append] at hcut
      have hslash : cs ++ ['*'] ++ ['/'] = before ++ '*' :: '/' :: more ++ [c] := by
        simpa using hcut
      obtain ⟨hstar, -⟩ := List.append_inj' hslash rfl
      exact absurd ⟨rfl, rfl⟩ (hopen hstar)

end Text

namespace Dialect

open Text

/-! ### Headers in JavaScript -/

theorem head?_guardClose (cs : List Char) : (guardClose cs).head? = cs.head? := by
  fun_cases guardClose cs <;> rfl

/-- No mark is left in a guarded text, and none arises beside the backslashes
that were put in. -/
theorem staysOpen_guardClose (cs : List Char) : StaysOpen (guardClose cs) := by
  fun_induction guardClose cs with
  | case1 => exact List.isChain_nil
  | case2 c => exact List.isChain_singleton c
  | case3 rest ih =>
      have hslash : StaysOpen ('/' :: guardClose rest) :=
        List.isChain_cons.2 ⟨fun _ _ h => absurd h.1 (by decide), ih⟩
      have hmarks : StaysOpen ['*', '\\'] := by simp [StaysOpen, Apart]
      exact hmarks.append hslash (.inl (by simp))
  | case4 c next rest hpair ih =>
      refine List.isChain_cons.2 ⟨?_, ih⟩
      rintro b hb ⟨rfl, rfl⟩
      rw [head?_guardClose, List.head?_cons, Option.mem_some_iff] at hb
      exact hpair rfl hb

theorem staysOpen_indent_append {indent : String} (h : Settings.isIndent indent) {cs : List Char}
    (hcs : StaysOpen cs) : StaysOpen (indent.toList ++ cs) := by
  have hstar : '*' ∉ indent.toList := Settings.not_mem_of_isIndent h (by decide) (by decide)
  refine (staysOpen_of_not_mem hstar).append hcs (.inl fun hlast => ?_)
  exact hstar (List.mem_of_getLast? hlast)

theorem staysOpen_starredLines {indent : String} (hindent : Settings.isIndent indent)
    {lines : List String} (hlines : ∀ line ∈ lines, StaysOpen line.toList) {rest : List Char}
    (hrest : StaysOpen rest) :
    StaysOpen (lines.flatMap (fun line =>
      indent.toList ++ ' ' :: '*' :: ' ' :: (line.toList ++ ['\n'])) ++ rest) := by
  induction lines with
  | nil => exact hrest
  | cons line lines ih =>
      obtain ⟨hline, hlines⟩ := List.forall_mem_cons.1 hlines
      have hstar : StaysOpen [' ', '*', ' '] := by simp [StaysOpen, Apart]
      have hbreak : StaysOpen (line.toList ++ ['\n']) :=
        hline.append (List.isChain_singleton _) (.inr (by simp))
      have hfirst := staysOpen_indent_append hindent (hstar.append hbreak (.inl (by simp)))
      rw [List.flatMap_cons, List.append_assoc]
      exact hfirst.append (ih hlines) (.inl (by simp [List.getLast?_cons]))

/-- What stands in the comment closes nothing, in either layout. -/
theorem exists_comment_body {indent : String} (hindent : Settings.isIndent indent) (text : String) :
    ∃ body : String, docHeader .javascript indent text = indent ++ "/**" ++ body ++ "*/\n" ∧
      StaysOpen body.toList ∧ body.toList.head? ≠ some '/' := by
  have hguarded : StaysOpen (String.ofList (guardClose text.toList)).toList := by
    rw [String.toList_ofList]
    exact staysOpen_guardClose _
  unfold docHeader
  generalize String.ofList (guardClose text.toList) = guarded at hguarded
  have honeLine : ∃ body : String,
      indent ++ "/** " ++ trim guarded ++ " */\n" = indent ++ "/**" ++ body ++ "*/\n" ∧
        StaysOpen body.toList ∧ body.toList.head? ≠ some '/' := by
    refine ⟨" " ++ trim guarded ++ " ", ?_, ?_, ?_⟩
    · simp [← String.toList_inj]
    · have htrimmed : StaysOpen (trim guarded).toList := hguarded.infix (infix_trim guarded)
      rw [String.append_assoc, String.toList_append, String.toList_append]
      exact StaysOpen.append (List.isChain_singleton _)
        (htrimmed.append (List.isChain_singleton _) (.inr (by simp))) (.inl (by simp))
    · simp
  dsimp only
  split
  · exact honeLine
  · exact honeLine
  · generalize hlines : lines guarded = all
    refine ⟨"\n" ++ String.join (all.map fun line => indent ++ " * " ++ line ++ "\n") ++ indent ++
      " ", ?_, ?_, ?_⟩
    · simp [← String.toList_inj]
    · have hall : ∀ line ∈ all, StaysOpen line.toList := fun line hline =>
        hguarded.infix (infix_of_mem_lines (hlines ▸ hline))
      have hend := staysOpen_indent_append hindent (List.isChain_singleton ' ')
      have hbody : StaysOpen (['\n'] ++ _) := StaysOpen.append (List.isChain_singleton _)
        (staysOpen_starredLines hindent hall hend) (.inl (by simp))
      simpa [String.toList_join, List.flatMap_map] using hbody
    · simp

/-- In JavaScript a header is its indent, one block comment and a line feed: the
mark that closes the comment is at the very end, and occurs nowhere else. -/
theorem javascript_doc_is_one_comment {indent : String} (hindent : Settings.isIndent indent)
    (text : String) :
    ∃ body : String, docHeader .javascript indent text = indent ++ "/**" ++ body ++ "*/\n" ∧
      (∀ rest, afterComment? (("/**" ++ body ++ "*/").toList ++ rest) = some rest) ∧
      ∀ before after, (docHeader .javascript indent text).toList = before ++ '*' :: '/' :: after →
        after = ['\n'] := by
  obtain ⟨body, hheader, hbody, hhead⟩ := exists_comment_body hindent text
  have hopen : StaysOpen ("/**".toList ++ body.toList) := by
    have hmark : StaysOpen "/**".toList := by simp [StaysOpen, Apart]
    exact hmark.append hbody (.inr hhead)
  refine ⟨body, hheader, ?_, ?_⟩
  · intro rest
    -- The comment is read from behind its first two characters on.
    have hinner : StaysOpen (('*' :: body.toList) ++ ['*']) :=
      StaysOpen.append hopen.tail.tail (List.isChain_singleton _) (.inr (by simp))
    simpa [afterComment?] using afterClose?_append hinner rest
  · intro before after hsplit
    have hall := (staysOpen_indent_append hindent hopen).append (List.isChain_singleton '*')
      (.inr (by simp))
    apply eq_of_close hall
    rw [← hsplit, hheader]
    simp

/-- Marks at the end of a line, at the start of the next and after another
star. -/
theorem javascript_doc_is_one_comment_marks :
    Settings.isIndent "  " ∧
      docHeader .javascript "  " "a **/\r\n/ b*/" =
        "  /**\n   * a **\\/\n   * / b*\\/\n   */\n" ∧
      ∀ before after, (docHeader .javascript "  " "a **/\r\n/ b*/").toList =
        before ++ '*' :: '/' :: after → after = ['\n'] := by
  have hindent : Settings.isIndent "  " := by decide
  obtain ⟨body, hheader, -, hmarks⟩ := javascript_doc_is_one_comment hindent "a **/\r\n/ b*/"
  exact ⟨hindent, by decide, hmarks⟩

end Dialect

namespace Text

/-! ### Lines of Python -/

/-- The lines of a Python source of which `seen` was read since the last line
break, in reverse. A line ends at a line feed, a carriage return, or both. -/
def physicalLinesFrom (seen : List Char) : List Char → List (List Char)
  | [] => if seen.isEmpty then [] else [seen.reverse]
  | '\r' :: '\n' :: rest => seen.reverse :: physicalLinesFrom [] rest
  | '\r' :: rest => seen.reverse :: physicalLinesFrom [] rest
  | '\n' :: rest => seen.reverse :: physicalLinesFrom [] rest
  | c :: rest => physicalLinesFrom (c :: seen) rest

def physicalLines (cs : List Char) : List (List Char) :=
  physicalLinesFrom [] cs

theorem physicalLinesFrom_return {rest : List Char} (h : rest.head? ≠ some '\n')
    (seen : List Char) :
    physicalLinesFrom seen ('\r' :: rest) = seen.reverse :: physicalLinesFrom [] rest := by
  apply physicalLinesFrom.eq_3
  rintro more rfl
  exact h rfl

theorem physicalLinesFrom_cons {c : Char} (hreturn : c ≠ '\r') (hfeed : c ≠ '\n')
    (seen rest : List Char) :
    physicalLinesFrom seen (c :: rest) = physicalLinesFrom (c :: seen) rest := by
  rw [physicalLinesFrom.eq_def]
  split <;> simp_all

/-- `P` holds of what follows each carriage return. -/
def AfterReturns (P : List Char → Prop) (cs : List Char) : Prop :=
  ∀ before after, cs = before ++ '\r' :: after → P after

section

variable {P : List Char → Prop} {cs : List Char}

theorem afterReturns_of_not_mem (h : '\r' ∉ cs) : AfterReturns P cs := by
  rintro before after rfl
  simp at h

@[simp] theorem afterReturns_nil : AfterReturns P [] :=
  afterReturns_of_not_mem List.not_mem_nil

theorem afterReturns_cons {c : Char} :
    AfterReturns P (c :: cs) ↔ (c = '\r' → P cs) ∧ AfterReturns P cs := by
  constructor
  · intro h
    exact ⟨fun hc => h [] cs (by rw [hc]; rfl), fun before after heq =>
      h (c :: before) after (by rw [heq]; rfl)⟩
  · rintro ⟨hc, h⟩ before after heq
    cases before with
    | nil =>
        obtain ⟨rfl, rfl⟩ := List.cons.inj heq
        exact hc rfl
    | cons d before => exact h before after (List.cons.inj heq).2

theorem afterReturns_append {xs : List Char} (h : '\r' ∉ xs) :
    AfterReturns P (xs ++ cs) ↔ AfterReturns P cs := by
  induction xs with
  | nil => rfl
  | cons x xs ih =>
      rw [List.mem_cons, not_or] at h
      rw [List.cons_append, afterReturns_cons, ih h.2]
      exact and_iff_right fun hreturn => absurd hreturn.symm h.1

end

section

variable {mark : List Char}

/-- A text that does not have `x` in it is not cut off by an `x`. -/
theorem prefix_append_cons_iff {x : Char} (hx : x ∉ mark) (cs rest : List Char) :
    mark <+: cs ++ x :: rest ↔ mark <+: cs := by
  constructor
  · intro h
    have hcs : cs <+: cs ++ x :: rest := List.prefix_append _ _
    rcases List.prefix_or_prefix_of_prefix h hcs with h' | ⟨more, rfl⟩
    · exact h'
    · rw [List.prefix_append_right_inj] at h
      cases more with
      | nil => simp
      | cons y more =>
          obtain ⟨rfl, -⟩ := List.cons_prefix_cons.1 h
          simp at hx
  · intro h
    exact h.trans (List.prefix_append _ _)

/-- A carriage return in a line of a header does no harm at its end, where a
line feed follows, or before another mark. -/
def Remarks (mark after : List Char) : Prop :=
  after = [] ∨ mark <+: after

/-- The lines of Python up to a line feed all start with `mark` if the first one
does and each carriage return on the way does no harm. -/
theorem forall_physicalLinesFrom (hreturn : '\r' ∉ mark) {cs : List Char} (hcs : '\n' ∉ cs)
    (seen rest : List Char) :
    (∀ line ∈ physicalLinesFrom seen (cs ++ '\n' :: rest), mark <+: line) ↔
      mark <+: seen.reverse ++ cs ∧ AfterReturns (Remarks mark) cs ∧
        ∀ line ∈ physicalLines rest, mark <+: line := by
  induction cs generalizing seen with
  | nil => simp [physicalLinesFrom, physicalLines]
  | cons c cs ih =>
      rw [List.mem_cons, not_or] at hcs
      obtain ⟨hc, hcs⟩ := hcs
      by_cases hcr : c = '\r'
      · subst c
        rw [prefix_append_cons_iff hreturn, afterReturns_cons]
        cases cs with
        | nil => simp [physicalLinesFrom, physicalLines, Remarks]
        | cons d cs =>
            have hd : (d :: cs ++ '\n' :: rest).head? ≠ some '\n' := by
              rw [List.cons_append, List.head?_cons, ne_eq, Option.some.injEq]
              exact fun h => hcs (h ▸ List.mem_cons_self)
            rw [List.cons_append, physicalLinesFrom_return hd, List.forall_mem_cons, ih hcs]
            simp [Remarks, and_assoc]
      · rw [List.cons_append, physicalLinesFrom_cons hcr (Ne.symm hc), ih hcs, afterReturns_cons]
        simp [hcr]

/-- A carriage return in a text does no harm at its end, before a line break or
before another mark. -/
def Harmless (mark after : List Char) : Prop :=
  after = [] ∨ ['\n'] <+: after ∨ ['\r', '\n'] <+: after ∨ mark <+: after

theorem harmless_iff_of_not_mem {cs : List Char} (h : '\n' ∉ cs) :
    Harmless mark cs ↔ Remarks mark cs := by
  have hfeed : ¬['\n'] <+: cs := fun hp => h (hp.subset (by simp))
  have hboth : ¬['\r', '\n'] <+: cs := fun hp => h (hp.subset (by simp))
  simp [Harmless, Remarks, hfeed, hboth]

theorem harmless_append_iff (hreturn : '\r' ∉ mark) (hfeed : '\n' ∉ mark) {cs : List Char}
    (hcs : '\n' ∉ cs) {brk : List Char}
    (hbrk : brk = ['\r', '\n'] ∨ brk = ['\n'] ∧ cs.getLast? ≠ some '\r') (rest : List Char) :
    Harmless mark (cs ++ (brk ++ rest)) ↔ Remarks mark cs := by
  have hmark : mark <+: cs ++ (brk ++ rest) ↔ mark <+: cs := by
    rcases hbrk with rfl | ⟨rfl, -⟩
    · exact prefix_append_cons_iff hreturn cs _
    · exact prefix_append_cons_iff hfeed cs _
  match cs, hcs with
  | [], _ => rcases hbrk with rfl | ⟨rfl, -⟩ <;> simp [Harmless, Remarks]
  | [c], hcs =>
      have hc : c ≠ '\n' := fun h => hcs (by simp [h])
      rcases hbrk with rfl | ⟨rfl, hlast⟩
      · simpa [Harmless, Remarks, Ne.symm hc] using hmark
      · have hcr : c ≠ '\r' := fun h => hlast (by simp [h])
        simpa [Harmless, Remarks, Ne.symm hc, Ne.symm hcr] using hmark
  | c :: d :: cs, hcs =>
      have hc : c ≠ '\n' := fun h => hcs (by simp [h])
      have hd : d ≠ '\n' := fun h => hcs (by simp [h])
      simpa [Harmless, Remarks, Ne.symm hc, Ne.symm hd] using hmark

/-- At a line break the conditions on a text fall apart into one on the line and
one on what follows it. -/
theorem afterReturns_append_break (hreturn : '\r' ∉ mark) (hfeed : '\n' ∉ mark) {cs : List Char}
    (hcs : '\n' ∉ cs) {brk : List Char}
    (hbrk : brk = ['\r', '\n'] ∨ brk = ['\n'] ∧ cs.getLast? ≠ some '\r') (rest : List Char) :
    AfterReturns (Harmless mark) (cs ++ (brk ++ rest)) ↔
      AfterReturns (Remarks mark) cs ∧ AfterReturns (Harmless mark) rest := by
  induction cs with
  | nil => rcases hbrk with rfl | ⟨rfl, -⟩ <;> simp [afterReturns_cons, Harmless]
  | cons c cs ih =>
      rw [List.mem_cons, not_or] at hcs
      have hbrk : brk = ['\r', '\n'] ∨ brk = ['\n'] ∧ cs.getLast? ≠ some '\r' := by
        refine hbrk.imp_right fun h => ⟨h.1, fun hlast => h.2 ?_⟩
        rw [List.getLast?_cons, hlast]
        rfl
      rw [List.cons_append, afterReturns_cons, afterReturns_cons, ih hcs.2 hbrk,
        harmless_append_iff hreturn hfeed hcs.2 hbrk, and_assoc]

/-- The lines of a text meet their condition if the text does. -/
theorem forall_linesFrom (hreturn : '\r' ∉ mark) (hfeed : '\n' ∉ mark) {seen : List Char}
    (hseen : '\n' ∉ seen) (cs : List Char) :
    (∀ line ∈ linesFrom seen cs, AfterReturns (Remarks mark) line) ↔
      AfterReturns (Harmless mark) (seen.reverse ++ cs) := by
  induction cs generalizing seen with
  | nil =>
      have hrev : '\n' ∉ seen.reverse := by simpa using hseen
      have hlast : AfterReturns (Remarks mark) seen.reverse ↔
          AfterReturns (Harmless mark) seen.reverse := by
        refine forall₃_congr fun before after heq => (harmless_iff_of_not_mem ?_).symm
        exact fun h => hrev (by rw [heq]; simp [h])
      rw [List.append_nil, ← hlast, linesFrom]
      split
      · next hempty =>
        rw [List.isEmpty_iff.1 hempty]
        exact iff_of_true (by simp) afterReturns_nil
      · exact List.forall_mem_singleton
  | cons c rest ih =>
      by_cases hc : c = '\n'
      · subst c
        have hrev : '\n' ∉ seen.reverse := by simpa using hseen
        rw [linesFrom_feed, List.forall_mem_cons, ih (by simp), List.reverse_nil, List.nil_append]
        unfold endedLine
        split
        · next line =>
          rw [List.reverse_cons, List.append_assoc]
          refine (afterReturns_append_break hreturn hfeed ?_ (.inl rfl) rest).symm
          exact fun h => hrev (by simp [List.mem_reverse.1 h])
        · next hline =>
          have hlast : seen.reverse.getLast? ≠ some '\r' := by
            rw [List.getLast?_reverse]
            intro h
            obtain ⟨line, rfl⟩ := List.head?_eq_some_iff.1 h
            exact hline line rfl
          exact (afterReturns_append_break hreturn hfeed hrev (.inr ⟨rfl, hlast⟩) rest).symm
      · rw [linesFrom_cons hc, ih (by simp [hseen, Ne.symm hc])]
        simp

end

end Text

namespace Dialect

open Text

/-! ### Headers in Python -/

theorem toList_docHeader_python (indent text : String) :
    (docHeader .python indent text).toList = (linesFrom [] text.toList).flatMap fun line =>
      indent.toList ++ ['#', ' '] ++ line ++ ['\n'] := by
  simp [docHeader, lines, List.flatMap_map]

/-- Each line that is written starts with the indent and the mark, so only
carriage returns inside it can begin a line without them. -/
theorem forall_physicalLines_remarked {indent : List Char} (hreturn : '\r' ∉ indent)
    (hfeed : '\n' ∉ indent) {lines : List (List Char)} (hlines : ∀ line ∈ lines, '\n' ∉ line) :
    (∀ line ∈ physicalLines (lines.flatMap fun line => indent ++ ['#', ' '] ++ line ++ ['\n']),
      indent ++ ['#'] <+: line) ↔
      ∀ line ∈ lines, AfterReturns (Remarks (indent ++ ['#'])) line := by
  induction lines with
  | nil => simp [physicalLines, physicalLinesFrom]
  | cons line lines ih =>
      obtain ⟨hline, hlines⟩ := List.forall_mem_cons.1 hlines
      have hstart : indent ++ ['#'] <+: indent ++ ['#', ' '] ++ line := by simp
      rw [List.flatMap_cons, List.append_assoc _ ['\n'], physicalLines, List.singleton_append,
        forall_physicalLinesFrom (by simp [hreturn]) (by simp [hfeed, hline]),
        afterReturns_append (by simp [hreturn]), ih hlines, List.forall_mem_cons]
      exact and_iff_right hstart

/-- In Python every line of a header is a comment at the indent exactly if each
carriage return in the text ends it, or is followed by a line break or by such
a comment. A carriage return before anything else ends the comment, and what
comes next is read as code. -/
theorem python_doc_is_comment_iff {indent : String} (hindent : Settings.isIndent indent)
    (text : String) :
    (∀ line ∈ physicalLines (docHeader .python indent text).toList,
      (indent ++ "#").toList <+: line) ↔
      ∀ before after, text.toList = before ++ '\r' :: after →
        after = [] ∨ ['\n'] <+: after ∨ ['\r', '\n'] <+: after ∨
          (indent ++ "#").toList <+: after := by
  have hreturn : '\r' ∉ indent.toList :=
    Settings.not_mem_of_isIndent hindent (by decide) (by decide)
  have hfeed : '\n' ∉ indent.toList :=
    Settings.not_mem_of_isIndent hindent (by decide) (by decide)
  have hlines : ∀ line ∈ linesFrom [] text.toList, '\n' ∉ line := fun _ =>
    feed_not_mem_linesFrom (by simp)
  rw [toList_docHeader_python, String.toList_append,
    show "#".toList = ['#'] from rfl, forall_physicalLines_remarked hreturn hfeed hlines,
    forall_linesFrom (by simp [hreturn]) (by simp [hfeed]) (by simp)]
  rfl

/-- A mark after a lone carriage return has to stand at the indent. -/
theorem python_doc_is_comment_iff_marked :
    Settings.isIndent "\t" ∧
      (∀ line ∈ physicalLines (docHeader .python "\t" "a\r\t# b\r\nc\r").toList,
        "\t#".toList <+: line) ∧
      ¬∀ line ∈ physicalLines (docHeader .python "\t" "a\r# b").toList, "\t#".toList <+: line := by
  have hindent : Settings.isIndent "\t" := by decide
  refine ⟨hindent, (python_doc_is_comment_iff hindent _).2 ?_, ?_⟩
  · show AfterReturns (Harmless "\t#".toList) "a\r\t# b\r\nc\r".toList
    simp [afterReturns_cons, afterReturns_of_not_mem, Harmless]
  · rw [show "\t#" = "\t" ++ "#" from rfl, python_doc_is_comment_iff hindent]
    intro hreturns
    exact absurd (hreturns ['a'] "# b".toList rfl) (by decide)

/-- A word after a carriage return is read as code. -/
theorem carriage_return_ends_comment :
    docHeader .python "" "a\rimport os" = "# a\rimport os\n" ∧
      physicalLines (docHeader .python "" "a\rimport os").toList =
        ["# a".toList, "import os".toList] ∧
      ¬∀ line ∈ physicalLines (docHeader .python "" "a\rimport os").toList,
        "#".toList <+: line := by
  decide

end Dialect

end TargetCode
