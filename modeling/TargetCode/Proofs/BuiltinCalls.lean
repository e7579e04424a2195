import Mathlib.Data.List.Basic
import TargetCode.Proofs.SafeTags
import TargetCode.Proofs.WellFormedOperands

/-!
The built-in operations against the methods they are made for.

An operation says how many arguments it takes, its forms take apart a list of
arguments on their own, and for bytecode the form relies on a method of the
right name, kind and arity. Nothing but care keeps these tables in step. Here
they are: a call that passes the checks of the registry never fails in the form
that it runs, and the method of an invocation receives what the call was given.
-/

namespace TargetCode

/-- What the method of an invocation receives, in order. -/
def Invocation.received (i : Invocation) : List Operand :=
  i.receiver.toList ++ i.args

/-- The table with more globals. -/
def MethodTable.setGlobals (table : MethodTable) (globals : List (String × Nat)) : MethodTable :=
  globals.foldl (fun table (name, slot) => table.setGlobal name slot) table

theorem MethodTable.Offers.add {table : MethodTable} {methods : List Method}
    (h : table.Offers methods) (entry : Entry) : (table.add entry).Offers methods := by
  intro m hm
  rw [find?_add, h m hm]
  rfl

theorem MethodTable.Offers.setGlobals {table : MethodTable} {methods : List Method}
    (h : table.Offers methods) (globals : List (String × Nat)) :
    (table.setGlobals globals).Offers methods := by
  induction globals generalizing table with
  | nil => exact h
  | cons entry globals ih => exact ih (h.add (.global entry.1 entry.2))

namespace Builtin

/-- The arguments after the value are validated, in the one operation that does
so. -/
def TagsPass (op : Operation) (sources : List String) : Prop :=
  op.name = "cleanHtml" → checkTags (sources.drop 1) = .ok ()

theorem find?_of_mem {op : Operation} (hop : op ∈ operations) :
    Registry.builtin.find? op.name = some op := by
  rcases cases_of_mem hop with rfl | ⟨-, rfl | rfl | rfl | rfl | rfl | rfl | rfl⟩ <;> rfl

theorem requireLiterals_iff {op : Operation} (hop : op ∈ operations) (sources : List String) :
    op.requireLiterals sources = .ok () ↔ TagsPass op sources := by
  rcases cases_of_mem hop with rfl | ⟨hname, hop⟩
  · exact ⟨fun h _ => h, fun h => h rfl⟩
  · have hliterals : op.literals = none := by
      rcases hop with rfl | rfl | rfl | rfl | rfl | rfl | rfl <;> rfl
    simp [Operation.requireLiterals, hliterals, TagsPass, hname]

/-- The form that a call runs if it passes. -/
theorem formOf_builtin_iff {op : Operation} (hop : op ∈ operations) {φ : Type} (backend : Backend)
    (form : Operation → Option φ) (sources : List String) (f : φ) :
    Registry.builtin.formOf backend form op.name sources = .ok f ↔
      form op = some f ∧ sources.length ∈ op.arities ∧ TagsPass op sources := by
  rw [Registry.formOf_eq_ok_iff, find?_of_mem hop]
  simp only [Option.some.injEq, exists_eq_left', Operation.accepts, List.contains_iff_mem,
    requireLiterals_iff hop]
  exact and_left_comm

/-- A call of a built-in operation ends as the checks say: it succeeds if all of
them pass, and otherwise it is rejected before any form is run. -/
structure DecidedByChecks {α : Type} (op : Operation) (backend : Backend) (sources : List String)
    (outcome : Logged (Except Error α)) : Prop where
  ok_iff : (∃ a, outcome.value = .ok a) ↔
    sources.length ∈ op.arities ∧ op.hasForm backend = true ∧ TagsPass op sources
  rejected (e : Error) : outcome.value = .error e → outcome = ⟨.error e, [.rejected op.name e]⟩

/-- It is enough that a form never fails once it is run. -/
theorem decidedByChecks_of_follows {op : Operation} (hop : op ∈ operations) {φ α : Type}
    {backend : Backend} {form : Operation → Option φ}
    (hform : op.hasForm backend = (form op).isSome) {sources : List String}
    {run : φ → Except Error α} {outcome : Logged (Except Error α)}
    (hfollows : outcome.Follows op.name run
      (Registry.builtin.formOf backend form op.name sources))
    (htotal : ∀ f, form op = some f → sources.length ∈ op.arities → TagsPass op sources →
      ∃ a, run f = .ok a) :
    DecidedByChecks op backend sources outcome := by
  have hchecks := formOf_builtin_iff hop backend form sources
  cases hverdict : Registry.builtin.formOf backend form op.name sources with
  | error e =>
      rw [hverdict] at hfollows hchecks
      obtain rfl : outcome = ⟨.error e, [.rejected op.name e]⟩ := hfollows
      constructor
      · simp only [reduceCtorEq, exists_false, false_iff]
        rintro ⟨hcount, hsome, hpass⟩
        rw [hform] at hsome
        obtain ⟨f, hf⟩ := Option.isSome_iff_exists.1 hsome
        exact nomatch (hchecks f).2 ⟨hf, hcount, hpass⟩
      · intro e' he'
        rw [Except.error.inj he']
  | ok f =>
      rw [hverdict] at hfollows hchecks
      obtain ⟨hf, hcount, hpass⟩ := (hchecks f).1 rfl
      obtain ⟨a, ha⟩ := htotal f hf hcount hpass
      have hvalue : outcome.value = .ok a := Eq.trans hfollows ha
      constructor
      · refine iff_of_true ⟨a, hvalue⟩ ⟨hcount, ?_, hpass⟩
        rw [hform, hf]
        rfl
      · intro e he
        exact nomatch hvalue.symm.trans he

/-! ### Forms for text -/

/-- A form takes every number of arguments that is listed. -/
def TakesAll (arities : List Nat) (form : TextForm) : Prop :=
  ∀ args target, args.length ∈ arities → ∃ e, form args target = .ok e

section

variable {form : TextForm}

theorem takesAll_one (h : ∀ a target, ∃ e, form [a] target = .ok e) : TakesAll [1] form := by
  intro args target hcount
  obtain ⟨a, rfl⟩ := List.length_eq_one_iff.1 (List.mem_singleton.1 hcount)
  exact h a target

theorem takesAll_two (h : ∀ a b target, ∃ e, form [a, b] target = .ok e) : TakesAll [2] form := by
  intro args target hcount
  obtain ⟨a, b, rfl⟩ := List.length_eq_two.1 (List.mem_singleton.1 hcount)
  exact h a b target

theorem TakesAll.append {arities others : List Nat} (h : TakesAll arities form)
    (hothers : TakesAll others form) : TakesAll (arities ++ others) form := by
  intro args target hcount
  rcases List.mem_append.1 hcount with hcount | hcount
  · exact h args target hcount
  · exact hothers args target hcount

end

theorem takesAll_flat : TakesAll [1, 2] flatExpr :=
  (takesAll_one fun _ _ => ⟨_, rfl⟩).append (takesAll_two fun _ _ _ => ⟨_, rfl⟩)

theorem takesAll_length : TakesAll [1] lengthExpr := by
  refine takesAll_one fun list target => ?_
  rw [lengthExpr]
  cases target.dialect <;> exact ⟨_, rfl⟩

theorem takesAll_extreme (name : String) : TakesAll [2] (extremeExpr name) := by
  refine takesAll_two fun a b target => ?_
  rw [extremeExpr]
  cases target.dialect <;> exact ⟨_, rfl⟩

theorem takesAll_round : TakesAll [1, 2] roundExpr := by
  refine (takesAll_one fun x target => ?_).append (takesAll_two fun _ _ _ => ⟨_, rfl⟩)
  unfold roundExpr
  cases target.dialect <;> exact ⟨_, rfl⟩

theorem takesAll_strContains : TakesAll [2] strContainsExpr := by
  refine takesAll_two fun searched sought target => ?_
  unfold strContainsExpr
  cases target.dialect <;> exact ⟨_, rfl⟩

theorem takesAll_escapeHtml : TakesAll [1] escapeHtmlExpr :=
  takesAll_one fun _ _ => ⟨_, rfl⟩

/-- Validation leaves nothing to be found wrong. -/
theorem exists_tags_of_tagsPass {sources : List String} (h : TagsPass cleanHtml sources) :
    ∃ tags, safeTags.pickAll (sources.drop 1) = .ok tags := by
  have hcheck : (safeTags.pickAll (sources.drop 1)).map (fun _ => ()) = .ok () := h rfl
  cases hpick : safeTags.pickAll (sources.drop 1) with
  | ok tags => exact ⟨tags, rfl⟩
  | error e =>
      rw [hpick] at hcheck
      contradiction

theorem exists_cons_of_mem_arities_cleanHtml {α : Type} {args : List α}
    (h : args.length ∈ cleanHtml.arities) : ∃ value extras, args = value :: extras := by
  have hpos := ((accepts_cleanHtml _).1 (List.contains_iff_mem.2 h)).1
  exact List.exists_cons_of_length_pos hpos

/-- No form for text fails in a call that passes the checks. -/
theorem text_total {op : Operation} (hop : op ∈ operations) {target : TextTarget}
    {form : TextForm} (hform : op.text target.dialect = some form) {args : List Expr}
    (hcount : args.length ∈ op.arities) (hpass : TagsPass op (args.map Expr.spelling)) :
    ∃ e, form args target = .ok e := by
  rcases cases_of_mem hop with rfl | ⟨-, rfl | rfl | rfl | rfl | rfl | rfl | rfl⟩
  case inr.inr.inr.inr.inr.inr.inr =>
    obtain ⟨-, hform⟩ := Option.ite_none_right_eq_some.1 hform
    obtain rfl := Option.some.inj hform
    exact takesAll_escapeHtml args target hcount
  all_goals obtain rfl := Option.some.inj hform
  · obtain ⟨value, extras, rfl⟩ := exists_cons_of_mem_arities_cleanHtml hcount
    obtain ⟨tags, htags⟩ := exists_tags_of_tagsPass hpass
    refine ⟨cleanedExpr target value tags, ?_⟩
    rw [cleanHtmlExpr_cons, show safeTags.pickAll (extras.map Expr.spelling) = _ from htags]
    rfl
  · exact takesAll_flat args target hcount
  · exact takesAll_length args target hcount
  · exact takesAll_extreme "max" args target hcount
  · exact takesAll_extreme "min" args target hcount
  · exact takesAll_round args target hcount
  · exact takesAll_strContains args target hcount

/-! ### Forms for bytecode -/

theorem methodName_builtinMethods {m : Method} (hm : m ∈ builtinMethods) :
    methodName m.id = m.owner ++ "." ++ m.name := by
  have hname : ∀ m ∈ builtinMethods, methodName m.id = m.owner ++ "." ++ m.name := by decide
  exact hname m hm

/-- A form calls a built-in method for every number of arguments that is listed,
and passes on the arguments as they are. -/
def PassesOn (arities : List Nat) (form : InvocationForm) : Prop :=
  ∀ args table, table.Offers builtinMethods → args.length ∈ arities →
    ∃ i, form args table = .ok i ∧ i.method ∈ builtinMethods ∧ i.received = args

theorem passesOn_callStatic {arities : List Nat} {owner name : String}
    (h : ∀ n ∈ arities, ∃ m ∈ builtinMethods,
      m.owner = owner ∧ m.name = name ∧ m.arity = n ∧ m.kind = .static) :
    PassesOn arities fun args table => table.callStatic owner name args := by
  intro args table htable hcount
  obtain ⟨m, hm, rfl, rfl, harity, hkind⟩ := h args.length hcount
  have hselect : table.select m.owner m.name args.length .static = .ok m :=
    MethodTable.select_eq_ok_iff.2 ⟨harity ▸ htable m hm, hkind⟩
  exact ⟨⟨m, none, args⟩, MethodTable.callStatic_eq_ok_iff.2 ⟨m, hselect, rfl⟩, hm, rfl⟩

theorem passesOn_length : PassesOn [1] lengthInvocation := by
  intro args table htable hcount
  obtain ⟨list, rfl⟩ := List.length_eq_one_iff.1 (List.mem_singleton.1 hcount)
  have hm : ⟨MethodId.listSize, "List", "size", 0, .bound⟩ ∈ builtinMethods := by decide
  have hselect := MethodTable.select_eq_ok_iff.2 ⟨htable _ hm, rfl⟩
  exact ⟨⟨_, some list, []⟩, MethodTable.callBound_eq_ok_iff.2 ⟨_, hselect, rfl⟩, hm, rfl⟩

/-- The literals that pass validation are string constants, and what is found
in them are their values. -/
theorem string?_of_pickAll {extras : List Operand} {tags : List String}
    (h : safeTags.pickAll (extras.map Operand.spelling) = .ok tags) :
    extras.map Operand.string? = tags.map some := by
  have hspelled : ∀ o ∈ extras, Spelled o.string? o.spelling := fun o _ => o.spelled_text
  rcases safe_or_exists_fault Operand.string? extras with
    ⟨tags', htags, hsafe⟩ | ⟨before, o, after, rfl, hbefore, ho⟩
  · rw [pickAll_eq_ok hspelled hsafe htags] at h
    rw [htags, Except.ok.inj h]
  · rw [pickAll_eq_error hspelled hbefore ho] at h
    contradiction

/-- What the method receives in a call with the operands `args`. These are
passed on as they are, except that `cleanHtml` puts the names of elements after
its value into one list. -/
def HandedOver (op : Operation) (args received : List Operand) : Prop :=
  if op.name = "cleanHtml" then
    ∃ value extras tags, args = value :: extras ∧ extras.map Operand.string? = tags.map some ∧
      received = value :: if tags = [] then [] else [.constant (.strings tags)]
  else received = args

theorem invocation_total_cleanHtml {table : MethodTable}
    (htable : table.Offers builtinMethods) {args : List Operand}
    (hcount : args.length ∈ cleanHtml.arities)
    (hpass : TagsPass cleanHtml (args.map Operand.spelling)) :
    ∃ i, cleanHtmlInvocation args table = .ok i ∧ i.method ∈ builtinMethods ∧
      HandedOver cleanHtml args i.received := by
  obtain ⟨value, extras, rfl⟩ := exists_cons_of_mem_arities_cleanHtml hcount
  obtain ⟨tags, htags⟩ := exists_tags_of_tagsPass hpass
  have hcall : cleanHtmlInvocation (value :: extras) table =
      .ok (cleanedInvocation value tags) := by
    rw [cleanHtmlInvocation_cons value extras htable,
      show safeTags.pickAll (extras.map Operand.spelling) = _ from htags]
    rfl
  have hmethod : (cleanedInvocation value tags).method ∈ builtinMethods := by
    cases tags with
    | nil => exact of_decide_eq_true rfl
    | cons tag tags => exact of_decide_eq_true rfl
  refine ⟨cleanedInvocation value tags, hcall, hmethod, ?_⟩
  rw [HandedOver, if_pos (show cleanHtml.name = "cleanHtml" from rfl)]
  exact ⟨value, extras, tags, rfl, string?_of_pickAll htags, rfl⟩

theorem passesOn_of_ne {op : Operation} (hop : op ∈ operations) (hname : op.name ≠ "cleanHtml")
    {form : InvocationForm} (hform : op.invocation = some form) : PassesOn op.arities form := by
  rcases cases_of_mem hop with rfl | ⟨-, rfl | rfl | rfl | rfl | rfl | rfl | rfl⟩ <;>
    obtain rfl := Option.some.inj hform
  · exact absurd rfl hname
  · exact passesOn_callStatic (by decide)
  · exact passesOn_length
  all_goals exact passesOn_callStatic (by decide)

/-- No form for bytecode fails in a call that passes the checks. -/
theorem invocation_total {op : Operation} (hop : op ∈ operations) {form : InvocationForm}
    (hform : op.invocation = some form) {table : MethodTable}
    (htable : table.Offers builtinMethods) {args : List Operand}
    (hcount : args.length ∈ op.arities) (hpass : TagsPass op (args.map Operand.spelling)) :
    ∃ i, form args table = .ok i ∧ i.method ∈ builtinMethods ∧ HandedOver op args i.received := by
  rcases cases_of_mem hop with rfl | ⟨hname, -⟩
  · obtain rfl := Option.some.inj hform
    exact invocation_total_cleanHtml htable hcount hpass
  · obtain ⟨i, hi, hmethod, hreceived⟩ := passesOn_of_ne hop hname hform args table htable hcount
    refine ⟨i, hi, hmethod, ?_⟩
    rwa [HandedOver, if_neg hname]

theorem decidedByChecks_expression {op : Operation} (hop : op ∈ operations) (args : List Expr)
    (target : TextTarget) :
    DecidedByChecks op target.backend (args.map Expr.spelling)
      (Registry.builtin.expression op.name args target) := by
  have hform : op.hasForm target.backend = (op.text target.dialect).isSome := by
    rw [TextTarget.backend]
    cases target.dialect <;> rfl
  refine decidedByChecks_of_follows hop hform (Registry.expression_follows ..) ?_
  intro form hform hcount hpass
  rw [List.length_map] at hcount
  exact text_total hop hform hcount hpass

theorem decidedByChecks_invocation {op : Operation} (hop : op ∈ operations) (args : List Operand)
    {table : MethodTable} (htable : table.Offers builtinMethods) :
    DecidedByChecks op .bytecode (args.map Operand.spelling)
      (Registry.builtin.invocation op.name args table) := by
  refine decidedByChecks_of_follows hop rfl (Registry.invocation_follows ..) ?_
  intro form hform hcount hpass
  rw [List.length_map] at hcount
  obtain ⟨i, hi, -⟩ := invocation_total hop hform htable hcount hpass
  exact ⟨i, hi⟩

theorem handedOver_of_invocation {op : Operation} (hop : op ∈ operations) {args : List Operand}
    {table : MethodTable} (htable : table.Offers builtinMethods) {i : Invocation}
    (hi : (Registry.builtin.invocation op.name args table).value = .ok i) :
    i.method ∈ builtinMethods ∧ HandedOver op args i.received := by
  obtain ⟨form, hform, hcall⟩ := (Registry.invocation_eq_ok_iff ..).1 hi
  obtain ⟨hop', hcount, hpass⟩ := (formOf_builtin_iff hop ..).1 hform
  rw [List.length_map] at hcount
  obtain ⟨i', hi', hfacts⟩ := invocation_total hop hop' htable hcount hpass
  rw [Except.ok.inj (hcall.symm.trans hi')]
  exact hfacts

/-- The built-in operations with the built-in methods and any globals. All of
them can be registered. A call of any of them, for any back end, succeeds if it
has a listed number of arguments, there is a form for the back end and the
arguments pass validation; otherwise it is rejected by one of these checks, and
in no other way. An invocation that comes out of it receives the operands of the
call, and its method is reported by owner and name. -/
theorem builtin_calls_decided_by_checks :
    (Registry.empty.registerAll operations).result = .ok () ∧
    ∃ methods, MethodTable.builtin = .ok methods ∧
    ∀ op ∈ Registry.builtin.operations,
      (∀ (args : List Expr) (target : TextTarget),
        DecidedByChecks op target.backend (args.map Expr.spelling)
          (Registry.builtin.expression op.name args target)) ∧
      ∀ (args : List Operand) (globals : List (String × Nat)),
        let outcome := Registry.builtin.invocation op.name args (methods.setGlobals globals)
        DecidedByChecks op .bytecode (args.map Operand.spelling) outcome ∧
        ∀ i, outcome.value = .ok i →
          HandedOver op args i.received ∧
          methodName i.method.id = i.method.owner ++ "." ++ i.method.name := by
  obtain ⟨table, htable, hoffers⟩ := exists_builtin_offers
  refine ⟨rfl, table, htable, fun op hop => ?_⟩
  rw [operations_builtin] at hop
  refine ⟨decidedByChecks_expression hop, fun args globals => ?_⟩
  have hall : (table.setGlobals globals).Offers builtinMethods := hoffers.setGlobals globals
  refine ⟨decidedByChecks_invocation hop args hall, fun i hi => ?_⟩
  obtain ⟨hm, hreceived⟩ := handedOver_of_invocation hop hall hi
  exact ⟨hreceived, methodName_builtinMethods hm⟩

/-- An accepted call with names of elements, and a call for the one back end
that lacks a form. -/
theorem builtin_calls_decided_by_checks_cleanHtml :
    let args : List Operand := [.global "page" 3, .constant (.str "ul"), .constant (.str "hr")]
    let target : TextTarget := ⟨.python, "rt", "  "⟩
    (cleanHtml ∈ Registry.builtin.operations ∧ escapeHtml ∈ Registry.builtin.operations) ∧
      (∃ methods i, MethodTable.builtin = .ok methods ∧
        (Registry.builtin.invocation "cleanHtml" args (methods.setGlobals [("page", 3)])).value =
          .ok i ∧
        i.received = [.global "page" 3, .constant (.strings ["ul", "hr"])] ∧
        methodName i.method.id = i.method.owner ++ "." ++ i.method.name) ∧
      ¬∃ e, (Registry.builtin.expression "escapeHtml" [.name "page"] target).value = .ok e := by
  intro args target
  obtain ⟨-, methods, hmethods, hall⟩ := builtin_calls_decided_by_checks
  have hclean : cleanHtml ∈ Registry.builtin.operations := by simp [operations_builtin, operations]
  have hescape : escapeHtml ∈ Registry.builtin.operations := by
    simp [operations_builtin, operations]
  obtain ⟨hdecided, hfacts⟩ := (hall cleanHtml hclean).2 args [("page", 3)]
  obtain ⟨i, hi⟩ := hdecided.ok_iff.2 ⟨by decide, rfl, fun _ => rfl⟩
  obtain ⟨hreceived, hname⟩ := hfacts i hi
  obtain ⟨value, extras, tags, hargs, htags, hreceived⟩ := hreceived
  obtain ⟨rfl, rfl⟩ := List.cons.inj hargs
  obtain rfl : ["ul", "hr"] = tags := List.map_injective_iff.2 (fun _ _ => Option.some.inj) htags
  refine ⟨⟨hclean, hescape⟩, ⟨methods, i, hmethods, hi, hreceived, hname⟩, ?_⟩
  intro hok
  obtain ⟨-, hform, -⟩ := ((hall escapeHtml hescape).1 [.name "page"] target).ok_iff.1 hok
  exact absurd hform (by decide)

end Builtin

end TargetCode
