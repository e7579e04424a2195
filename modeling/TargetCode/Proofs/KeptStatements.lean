import TargetCode.Proofs.Attachments
import TargetCode.Proofs.BuiltinCalls
import TargetCode.Proofs.Hoisting

/-!
Which statements a call of a built-in operation inherits from its arguments.

A form that puts an argument into its expression passes on what has to run
before the argument, and the text of the expression has these lines ahead of
it. All forms but one put every argument there. The exception is `cleanHtml`: it
writes the names of elements anew from their source texts, so whatever was
attached to these arguments is lost.
-/

namespace TargetCode

namespace Expr

/-- The text of an expression ends in its own line, and the lines ahead of it
are those that it needs. -/
theorem exists_lines_before (d : Dialect) (e : Expr) :
    ∃ before : List Statement,
      e.code d = String.join (before.map fun s => Entry.text d d.defaultIndent ⟨0, s⟩) ++
        e.render d ++ d.statementEnd ++ "\n" ∧
      ∀ t, t ∈ before ↔ Needs e.initial t := by
  have hextends : (Page.blank d).Extends ((Page.blank d).writeMissing e.initial) e.initial :=
    Page.extends_writeMissing (fun s _ => Page.extends_write s) trivial
  obtain ⟨before, hbefore⟩ := hextends.lines
  -- The page remembers its lines newest first.
  have hwritten : ((Page.blank d).writeMissing e.initial).written = before.reverse := by
    rw [hbefore, Page.putAll_written]
    exact List.append_nil _
  have hpage : (Page.blank d).write (.expression e none) =
      (Page.blank d).putAll (before ++ [.expression e none]) := by
    rw [Page.write_expression, hbefore, Page.putAll_append]
    rfl
  have hline : Entry.text d d.defaultIndent ⟨0, .expression e none⟩ =
      e.render d ++ d.statementEnd ++ "\n" := by
    simp [Entry.text, Statement.doc?, Statement.line]
  refine ⟨before, ?_, fun t => ?_⟩
  · rw [code, Statement.code, hpage, Page.putAll_eq, List.map_append, String.join_append]
    show "" ++ (String.join (before.map fun s => Entry.text d d.defaultIndent ⟨0, s⟩) ++
      String.join [Entry.text d d.defaultIndent ⟨0, .expression e none⟩]) = _
    rw [hline]
    simp [String.append_assoc]
  · rw [← List.mem_reverse, ← hwritten]
    constructor
    · intro ht
      have hnew := Page.mem_written_writeMissing (fun s _ => Page.mem_written_write s) ht
      exact hnew.resolve_left List.not_mem_nil
    · exact hextends.ordered.mem_of_leaves hextends.covers

section

variable {e : Expr} {parts : List Expr}
  (h : e.initial = (parts.flatMap initial).eraseDups)
include h

theorem mem_initial_iff {s : Statement} : s ∈ e.initial ↔ ∃ part ∈ parts, s ∈ part.initial := by
  rw [h, List.mem_eraseDups, List.mem_flatMap]

theorem needs_initial_iff {t : Statement} :
    Needs e.initial t ↔ ∃ part ∈ parts, Needs part.initial t := by
  constructor
  · intro ht
    obtain ⟨s, hs, hneeds⟩ := ht.exists_mem
    obtain ⟨part, hpart, hs⟩ := (mem_initial_iff h).1 hs
    exact ⟨part, hpart, hneeds.of_mem hs⟩
  · rintro ⟨part, hpart, hneeds⟩
    exact hneeds.mono fun s hs => (mem_initial_iff h).2 ⟨part, hpart, hs⟩

end

theorem eraseDups_initial_singleton (e : Expr) :
    ([e].flatMap initial).eraseDups = e.initial := by
  rw [List.flatMap_singleton, Statement.eraseDups_eq_self e.nodup_initial]

theorem initial_call_name (path : String) (args : List Expr) :
    (Expr.call (.name path) args).initial = (args.flatMap initial).eraseDups := by
  rw [initial, initial, initialAfter_eq List.nodup_nil, List.nil_append]

end Expr

/-! ### Forms -/

namespace Builtin

/-- The expression that a form gives depends on what the arguments in `order`
depend on, one after the other. -/
def Evaluates (order : Dialect → List Expr → List Expr) (form : TextForm) : Prop :=
  ∀ args target e, form args target = .ok e →
    e.initial = ((order target.dialect args).flatMap Expr.initial).eraseDups

theorem initial_of_ok_call {path : String} {args : List Expr} {e : Expr}
    (h : (.ok (.call (.name path) args) : Except Error Expr) = .ok e) :
    e.initial = (args.flatMap Expr.initial).eraseDups := by
  rw [← Except.ok.inj h, Expr.initial_call_name]

theorem evaluates_flat : Evaluates (fun _ args => args) flatExpr := by
  intro args target e he
  unfold flatExpr at he
  split at he
  · exact initial_of_ok_call he
  · exact initial_of_ok_call he
  · contradiction

theorem evaluates_length : Evaluates (fun _ args => args) lengthExpr := by
  intro args target e he
  unfold lengthExpr at he
  split at he
  · next list =>
    rw [list.eraseDups_initial_singleton]
    split at he
    · rw [← Except.ok.inj he]
      rfl
    · rw [← Except.ok.inj he]
      exact list.initial_passedTo "len"
  · contradiction

theorem evaluates_extreme (name : String) :
    Evaluates (fun _ args => args) (extremeExpr name) := by
  intro args target e he
  unfold extremeExpr at he
  split at he
  · split at he
    · exact initial_of_ok_call he
    · exact initial_of_ok_call he
  · contradiction

theorem evaluates_round : Evaluates (fun _ args => args) roundExpr := by
  intro args target e he
  unfold roundExpr at he
  split at he
  · exact initial_of_ok_call he
  · exact initial_of_ok_call he
  · exact initial_of_ok_call he
  · contradiction

theorem evaluates_escapeHtml : Evaluates (fun _ args => args) escapeHtmlExpr := by
  intro args target e he
  unfold escapeHtmlExpr at he
  split at he
  · exact initial_of_ok_call he
  · contradiction

/-- In Python the text that is looked for stands on the left. -/
theorem evaluates_strContains :
    Evaluates (fun d args => if d = .python then args.reverse else args) strContainsExpr := by
  intro args target e he
  unfold strContainsExpr at he
  split at he
  · next searched sought =>
    have hsearched : (target.asString searched).initial = searched.initial :=
      searched.initial_asString target.dialect
    dsimp only at he
    split at he
    · next hd =>
      rw [← Except.ok.inj he, hd]
      -- Neither the method's name nor the number that the index is compared with
      -- depends on anything.
      show Expr.initialAfter (target.asString searched).initial [sought] = _
      rw [hsearched, Expr.initialAfter_eq searched.nodup_initial]
      rfl
    · next hd =>
      rw [← Except.ok.inj he, hd, Expr.initial_eq]
      simp [Expr.children, Expr.attachedHere, hsearched]
  · contradiction

theorem initial_cleanedExpr (target : TextTarget) (value : Expr) (tags : List String) :
    (cleanedExpr target value tags).initial = value.initial := by
  have htags : (Expr.array (tags.map fun tag => .literal (.str tag))).initial = [] := by
    have hnone : (tags.map fun tag => Expr.literal (.str tag)).flatMap Expr.initial = [] := by
      rw [List.flatMap_eq_nil_iff]
      intro e he
      obtain ⟨tag, -, rfl⟩ := List.mem_map.1 he
      rfl
    rw [Expr.initial, Expr.initialAfter_eq List.nodup_nil, hnone]
    rfl
  rw [cleanedExpr, Expr.initial_call_name]
  split
  · exact value.eraseDups_initial_singleton
  · rw [List.flatMap_cons, List.flatMap_singleton, htags, List.append_nil,
      Statement.eraseDups_eq_self value.nodup_initial]

theorem evaluates_cleanHtml : Evaluates (fun _ args => args.take 1) cleanHtmlExpr := by
  intro args target e he
  cases args with
  | nil => contradiction
  | cons value extras =>
      rw [cleanHtmlExpr_cons] at he
      cases hpick : safeTags.pickAll (extras.map Expr.spelling) with
      | error error =>
          rw [hpick] at he
          contradiction
      | ok tags =>
          rw [hpick] at he
          rw [← Except.ok.inj he, initial_cleanedExpr]
          exact value.eraseDups_initial_singleton.symm

/-! ### Calls -/

/-- The arguments that the expression of a call is made of, from left to right. -/
def evaluated (op : Operation) (d : Dialect) (args : List Expr) : List Expr :=
  if op.name = "cleanHtml" then args.take 1
  else if op.name = "strContains" ∧ d = .python then args.reverse
  else args

theorem evaluates_text {op : Operation} (hop : op ∈ operations) {d : Dialect} {form : TextForm}
    (hform : op.text d = some form) : Evaluates (evaluated op) form := by
  rcases cases_of_mem hop with rfl | ⟨-, rfl | rfl | rfl | rfl | rfl | rfl | rfl⟩
  case inr.inr.inr.inr.inr.inr.inr =>
    obtain ⟨-, hform⟩ := Option.ite_none_right_eq_some.1 hform
    obtain rfl := Option.some.inj hform
    exact evaluates_escapeHtml
  all_goals obtain rfl := Option.some.inj hform
  · exact evaluates_cleanHtml
  · exact evaluates_flat
  · exact evaluates_length
  · exact evaluates_extreme "max"
  · exact evaluates_extreme "min"
  · exact evaluates_round
  · have horder : evaluated strContains =
        fun d args => if d = .python then args.reverse else args := by
      funext d args
      cases d <;> rfl
    rw [horder]
    exact evaluates_strContains

theorem mem_evaluated_of_ne {op : Operation} (h : op.name ≠ "cleanHtml") (d : Dialect)
    (args : List Expr) (arg : Expr) : arg ∈ evaluated op d args ↔ arg ∈ args := by
  rw [evaluated, if_neg h]
  split
  · exact List.mem_reverse
  · exact Iff.rfl

/-- Nothing is lost exactly if the names of elements bring nothing with them
that the value does not bring too. -/
theorem forall_initial_subset_iff {op : Operation} {d : Dialect} {args : List Expr} {e : Expr}
    (h : e.initial = ((evaluated op d args).flatMap Expr.initial).eraseDups) :
    (∀ arg ∈ args, arg.initial ⊆ e.initial) ↔
      (op.name = "cleanHtml" → ∀ value tags, args = value :: tags →
        ∀ tag ∈ tags, tag.initial ⊆ value.initial) := by
  by_cases hname : op.name = "cleanHtml"
  · rw [evaluated, if_pos hname] at h
    cases args with
    | nil => simp
    | cons value tags =>
        have hvalue : e.initial = value.initial := h.trans value.eraseDups_initial_singleton
        rw [hvalue, List.forall_mem_cons]
        constructor
        · rintro ⟨-, htags⟩ - value' tags' hargs
          obtain ⟨rfl, rfl⟩ := List.cons.inj hargs
          exact htags
        · intro htags
          exact ⟨List.Subset.refl _, htags hname value tags rfl⟩
  · refine iff_of_true (fun arg harg s hs => ?_) fun hclean => absurd hclean hname
    exact (Expr.mem_initial_iff h).2 ⟨arg, (mem_evaluated_of_ne hname d args arg).2 harg, hs⟩

/-- The expression of a call depends on what its arguments depend on, each
statement once, and its text has all of these lines and no others ahead of the
line of the call. Only `cleanHtml` looks at its first argument alone. There, and
nowhere else, a statement that was attached to another argument is lost unless
the first argument depends on it as well. -/
theorem builtin_call_keeps_statements_iff {op : Operation}
    (hop : op ∈ Registry.builtin.operations) {args : List Expr} {target : TextTarget} {e : Expr}
    (he : (Registry.builtin.expression op.name args target).value = .ok e) :
    e.initial = ((evaluated op target.dialect args).flatMap Expr.initial).eraseDups ∧
      e.initial.Nodup ∧
      ((∀ arg ∈ args, arg.initial ⊆ e.initial) ↔
        (op.name = "cleanHtml" → ∀ value tags, args = value :: tags →
          ∀ tag ∈ tags, tag.initial ⊆ value.initial)) ∧
      ∀ d : Dialect, ∃ before : List Statement,
        e.code d = String.join (before.map fun s => Entry.text d d.defaultIndent ⟨0, s⟩) ++
          e.render d ++ d.statementEnd ++ "\n" ∧
        ∀ t, t ∈ before ↔ ∃ arg ∈ evaluated op target.dialect args, Needs arg.initial t := by
  rw [operations_builtin] at hop
  obtain ⟨form, hform, hcall⟩ := (Registry.expression_eq_ok_iff ..).1 he
  obtain ⟨htext, -, -⟩ := (formOf_builtin_iff hop ..).1 hform
  have hinitial := evaluates_text hop htext args target e hcall
  refine ⟨hinitial, e.nodup_initial, forall_initial_subset_iff hinitial, fun d => ?_⟩
  obtain ⟨before, hcode, hbefore⟩ := e.exists_lines_before d
  exact ⟨before, hcode, fun t => (hbefore t).trans (Expr.needs_initial_iff hinitial)⟩

/-- A search in Python whose two texts are both computed beforehand. The text
that is looked for comes first. -/
theorem builtin_call_keeps_statements_iff_strContains :
    let computed (name : String) : Statement :=
      .declaration name .constant (some (.call (.name "read") [.string name])) none
    let args : List Expr := [.hoisted [computed "page"] (.name "page"),
      .hoisted [computed "word"] (.name "word")]
    strContains ∈ Registry.builtin.operations ∧
      ∃ e, (Registry.builtin.expression "strContains" args ⟨.python, "rt", "  "⟩).value = .ok e ∧
        e.initial = [computed "word", computed "page"] ∧
        (∀ arg ∈ args, arg.initial ⊆ e.initial) ∧
        ∃ before : List Statement,
          e.code .python = String.join (before.map fun s =>
            Entry.text .python Dialect.python.defaultIndent ⟨0, s⟩) ++ "word in str(page)\n" ∧
          computed "page" ∈ before := by
  intro computed args
  have hop : strContains ∈ Registry.builtin.operations := by simp [operations_builtin, operations]
  have he : (Registry.builtin.expression "strContains" args ⟨.python, "rt", "  "⟩).value =
    .ok (.binary .elementOf (.hoisted [computed "word"] (.name "word"))
      (.call (.name "str") [.hoisted [computed "page"] (.name "page")])) := by
    have hsearched : (Expr.hoisted [computed "page"] (.name "page")).asString .python =
      .call (.name "str") [.hoisted [computed "page"] (.name "page")] := by
        rw [Expr.asString, Expr.coercion?, if_neg (by decide)]
        rfl
    rw [← hsearched]
    rfl
  obtain ⟨hinitial, -, hkeeps, hcode⟩ := builtin_call_keeps_statements_iff hop he
  obtain ⟨before, htext, hbefore⟩ := hcode .python
  refine ⟨hop, _, he, hinitial, hkeeps.2 fun hname => absurd hname (by decide), before, ?_, ?_⟩
  · rw [htext, String.append_assoc, String.append_assoc]
    rfl
  · rw [hbefore]
    exact ⟨.hoisted [computed "page"] (.name "page"), by decide,
      .leaf (List.mem_singleton_self _) (List.mem_singleton_self _)⟩

/-- The declaration that the name of an element depends on is gone, although the
call is accepted. -/
theorem cleanHtml_drops_statements_of_tags :
    let computed : Statement := .declaration "t" .constant (some (.call (.name "f") [])) none
    let tag : Expr := .hoisted [computed] (.string "li")
    let target : TextTarget := ⟨.javascript, "quire.rt", "  "⟩
    ∃ e, (Registry.builtin.expression "cleanHtml" [.name "v", tag] target).value = .ok e ∧
      computed ∈ tag.initial ∧ computed ∉ e.initial ∧
      e.code .javascript = "quire.rt.cleanHtml(v, ['li']);\n" := by
  intro computed tag target
  have hcleaned : CleanedBy Expr.string? Expr.spelling (cleanedExpr target) [.name "v", tag]
      (Registry.builtin.expression "cleanHtml" [.name "v", tag] target).value :=
    cleanedBy_expression target (by decide)
  have hsafe : ∀ a ∈ [tag], IsSafeTag a.string? := by
    simp [tag, IsSafeTag, Expr.string?, Expr.bare, Expr.string]
  refine ⟨cleanedExpr target (.name "v") ["li"],
    (hcleaned.ok_iff _).2 ⟨_, [tag], ["li"], rfl, by decide, hsafe, rfl, rfl⟩,
    by decide, by decide, ?_⟩
  rw [Expr.code, Statement.code, Page.write_expression]
  rfl

end Builtin

end TargetCode
