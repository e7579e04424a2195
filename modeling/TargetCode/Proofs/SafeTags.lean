import TargetCode.Builtin.Operations
import TargetCode.Proofs.LiteralArguments

/-!
The elements that cleaned HTML may keep.

A call of `cleanHtml` is judged by the source texts of its arguments, and
this amounts to judging the arguments themselves: beside the value it takes up
to five string literals, each naming one of the allowed elements, and these
names are what the generated call passes on. The first argument that is
anything else is reported, whichever back end the call is meant for.
-/

namespace TargetCode

open Text

/-- Each of the methods is found under its own owner, name and arity. The table may
have more methods, which do not hide these. -/
def MethodTable.Offers (table : MethodTable) (methods : List Method) : Prop :=
  ∀ m ∈ methods, table.find? m.owner m.name m.arity = some m

namespace Builtin

theorem exists_builtin_offers :
    ∃ table, MethodTable.builtin = .ok table ∧ table.Offers builtinMethods :=
  ⟨_, rfl, by unfold MethodTable.Offers; decide⟩

/-- Whether an argument with this string value names an element to keep. -/
def IsSafeTag (value : Option String) : Prop :=
  ∃ tag ∈ ["hr", "li", "ol", "span", "ul"], value = some tag

/-- What is wrong with an argument that names no such element: a literal is
reported by what stands between its quotes, anything else as it is written. -/
def tagError (value : Option String) (source : String) : Error :=
  match value with
  | none => .malformedLiteral source
  | some s => if s = "" then .malformedLiteral source else .notAllowed (escaped s)

/-- Escaping adds a backslash wherever it changes anything. -/
theorem escaped_eq_self {s : String} (h : '\\' ∉ (escaped s).toList) : escaped s = s := by
  have hplain : ∀ c, '\\' ∉ quotedChar c → quotedChar c = [c] := by
    intro c
    unfold quotedChar
    split
    case h_6 => split <;> simp
    all_goals simp
  rw [escaped, String.toList_ofList] at h
  have hchars : ∀ c ∈ s.toList, quotedChar c = [c] := fun c hc =>
    hplain c fun hmem => h (List.mem_flatMap.2 ⟨c, hc, hmem⟩)
  rw [escaped, List.flatMap_def, List.map_congr_left hchars, ← List.flatMap_def,
    List.flatMap_singleton', String.ofList_toList]

theorem pick_eq_ok {tag text : String} (h : Spelled (some tag) text)
    (hsafe : IsSafeTag (some tag)) : safeTags.pick text = .ok tag := by
  have hpick : ∀ tag ∈ ["hr", "li", "ol", "span", "ul"], safeTags.pick (quote tag) = .ok tag := by
    decide
  obtain ⟨_, hmem, heq⟩ := hsafe
  obtain rfl := Option.some.inj heq
  cases h with
  | quoted => exact hpick _ hmem

theorem pick_eq_error {value : Option String} {text : String} (h : Spelled value text)
    (hsafe : ¬IsSafeTag value) : safeTags.pick text = .error (tagError value text) := by
  cases h with
  | other h => simp [AllowList.pick, unquote, body?, h, tagError]
  | quoted s =>
      by_cases hs : s = ""
      · subst s
        rfl
      · have hcontains : ¬safeTags.contains (escaped s) := by
          intro hcontains
          have hmem : escaped s ∈ ["hr", "li", "ol", "span", "ul"] := by
            simpa [AllowList.contains, safeTags] using hcontains
          -- No allowed name has a backslash, so nothing else is escaped to one.
          have hplain : ∀ tag ∈ ["hr", "li", "ol", "span", "ul"], '\\' ∉ tag.toList := by decide
          rw [escaped_eq_self (hplain _ hmem)] at hmem
          exact hsafe ⟨s, hmem, rfl⟩
        simp [AllowList.pick, unquote, body?_quote, hs, hcontains, tagError]

section

variable {α : Type} {string? : α → Option String} {source : α → String}

theorem pickAll_eq_ok {extras : List α} {tags : List String}
    (hspelled : ∀ a ∈ extras, Spelled (string? a) (source a))
    (hsafe : ∀ a ∈ extras, IsSafeTag (string? a)) (htags : extras.map string? = tags.map some) :
    safeTags.pickAll (extras.map source) = .ok tags := by
  induction extras generalizing tags with
  | nil =>
      rw [List.map_nil, eq_comm, List.map_eq_nil_iff] at htags
      subst tags
      rfl
  | cons a extras ih =>
      cases tags with
      | nil => simp at htags
      | cons tag tags =>
          rw [List.map_cons, List.map_cons, List.cons.injEq] at htags
          obtain ⟨hspelled, hspelledAll⟩ := List.forall_mem_cons.1 hspelled
          obtain ⟨hsafe, hsafeAll⟩ := List.forall_mem_cons.1 hsafe
          rw [htags.1] at hspelled hsafe
          rw [List.map_cons, AllowList.pickAll_cons, pick_eq_ok hspelled hsafe,
            ih hspelledAll hsafeAll htags.2]
          rfl

theorem pickAll_eq_error {before after : List α} {a : α}
    (hspelled : ∀ b ∈ before ++ a :: after, Spelled (string? b) (source b))
    (hbefore : ∀ b ∈ before, IsSafeTag (string? b)) (ha : ¬IsSafeTag (string? a)) :
    safeTags.pickAll ((before ++ a :: after).map source) =
      .error (tagError (string? a) (source a)) := by
  induction before with
  | nil =>
      rw [List.nil_append, List.map_cons, AllowList.pickAll_cons,
        pick_eq_error (hspelled a (by simp)) ha]
      rfl
  | cons b before ih =>
      obtain ⟨hb, hspelled⟩ := List.forall_mem_cons.1 hspelled
      obtain ⟨hsafe, hbefore⟩ := List.forall_mem_cons.1 hbefore
      obtain ⟨tag, -, htag⟩ := id hsafe
      rw [htag] at hb hsafe
      rw [List.cons_append, List.map_cons, AllowList.pickAll_cons, pick_eq_ok hb hsafe,
        ih hspelled hbefore]
      rfl

/-- Either all arguments name elements to keep, or there is a first one that
does not. -/
theorem safe_or_exists_fault (string? : α → Option String) (extras : List α) :
    (∃ tags : List String, extras.map string? = tags.map some ∧
      ∀ a ∈ extras, IsSafeTag (string? a)) ∨
    ∃ before a after, extras = before ++ a :: after ∧
      (∀ b ∈ before, IsSafeTag (string? b)) ∧ ¬IsSafeTag (string? a) := by
  induction extras with
  | nil => exact .inl ⟨[], rfl, by simp⟩
  | cons a extras ih =>
      by_cases ha : IsSafeTag (string? a)
      · rcases ih with ⟨tags, htags, hsafe⟩ | ⟨before, b, after, rfl, hbefore, hb⟩
        · obtain ⟨tag, -, htag⟩ := id ha
          refine .inl ⟨tag :: tags, ?_, List.forall_mem_cons.2 ⟨ha, hsafe⟩⟩
          rw [List.map_cons, List.map_cons, htag, htags]
        · exact .inr ⟨a :: before, b, after, rfl, List.forall_mem_cons.2 ⟨ha, hbefore⟩, hb⟩
      · exact .inr ⟨[], a, extras, rfl, by simp, ha⟩

/-- What `cleanHtml` makes of its arguments. `build` puts the result together
from the value to clean and the elements to keep. -/
structure CleanedBy (string? : α → Option String) (source : α → String) {β : Type}
    (build : α → List String → β) (args : List α) (outcome : Except Error β) : Prop where
  ok_iff (result : β) : outcome = .ok result ↔
    ∃ value extras tags, args = value :: extras ∧ extras.length ≤ 5 ∧
      (∀ a ∈ extras, IsSafeTag (string? a)) ∧ extras.map string? = tags.map some ∧
      result = build value tags
  wrong_count : ¬(1 ≤ args.length ∧ args.length ≤ 6) →
    outcome = .error (.arityNotRegistered "cleanHtml" args.length)
  first_fault (value : α) (before : List α) (a : α) (after : List α) :
    args = value :: (before ++ a :: after) → args.length ≤ 6 →
      (∀ b ∈ before, IsSafeTag (string? b)) → ¬IsSafeTag (string? a) →
      outcome = .error (tagError (string? a) (source a))

/-- It is enough to know that the number of arguments is checked and that the
source texts of the later ones are looked up. -/
theorem cleanedBy_of_pickAll {β : Type} {build : α → List String → β} {args : List α}
    {outcome : Except Error β} (hspelled : ∀ a ∈ args.tail, Spelled (string? a) (source a))
    (hcount : ¬(1 ≤ args.length ∧ args.length ≤ 6) →
      outcome = .error (.arityNotRegistered "cleanHtml" args.length))
    (hpick : ∀ value extras, args = value :: extras → extras.length ≤ 5 →
      outcome = (safeTags.pickAll (extras.map source)).map (build value)) :
    CleanedBy string? source build args outcome where
  ok_iff result := by
    constructor
    · intro hok
      cases args with
      | nil =>
          rw [hcount (by simp)] at hok
          contradiction
      | cons value extras =>
          rw [List.tail_cons] at hspelled
          by_cases hlength : extras.length ≤ 5
          · rw [hpick value extras rfl hlength] at hok
            rcases safe_or_exists_fault string? extras with
              ⟨tags, htags, hsafe⟩ | ⟨before, a, after, rfl, hbefore, ha⟩
            · rw [pickAll_eq_ok hspelled hsafe htags] at hok
              exact ⟨value, extras, tags, rfl, hlength, hsafe, htags, (Except.ok.inj hok).symm⟩
            · rw [pickAll_eq_error hspelled hbefore ha] at hok
              contradiction
          · rw [hcount (by simp only [List.length_cons]; omega)] at hok
            contradiction
    · rintro ⟨value, extras, tags, rfl, hlength, hsafe, htags, rfl⟩
      rw [List.tail_cons] at hspelled
      rw [hpick value extras rfl hlength, pickAll_eq_ok hspelled hsafe htags]
      rfl
  wrong_count := hcount
  first_fault value before a after hargs hlength hbefore ha := by
    subst args
    rw [hpick value _ rfl (Nat.le_of_succ_le_succ hlength),
      pickAll_eq_error hspelled hbefore ha]
    rfl

end

/-! ### Dispatch -/

theorem builtin_get_cleanHtml : Registry.builtin.get "cleanHtml" = .ok cleanHtml :=
  rfl

theorem accepts_cleanHtml (n : Nat) : cleanHtml.accepts n = true ↔ 1 ≤ n ∧ n ≤ 6 := by
  have harities : cleanHtml.arities = [1, 2, 3, 4, 5, 6] := by decide
  rw [Operation.accepts, harities, List.contains_iff_mem]
  simp only [List.mem_cons, List.not_mem_nil, or_false]
  omega

/-- The checks before the form of `cleanHtml` is run. -/
theorem formOf_cleanHtml {γ : Type} (backend : Backend) (form : Operation → Option γ) {f : γ}
    (hform : form cleanHtml = some f) (sources : List String) :
    Registry.builtin.formOf backend form "cleanHtml" sources =
      if 1 ≤ sources.length ∧ sources.length ≤ 6 then
        (safeTags.pickAll (sources.drop 1)).map fun _ => f
      else .error (.arityNotRegistered "cleanHtml" sources.length) := by
  have hliterals : cleanHtml.requireLiterals sources =
      (safeTags.pickAll (sources.drop 1)).map fun _ => () := rfl
  by_cases hcount : 1 ≤ sources.length ∧ sources.length ≤ 6
  · have harity : cleanHtml.requireArity sources.length = .ok () := by
      rw [Operation.requireArity, if_pos ((accepts_cleanHtml _).2 hcount)]
    rw [if_pos hcount, Registry.formOf, builtin_get_cleanHtml]
    simp only [bind, Except.bind, harity, hform, hliterals]
    cases safeTags.pickAll (sources.drop 1) <;> rfl
  · have harity : cleanHtml.requireArity sources.length =
        .error (.arityNotRegistered "cleanHtml" sources.length) := by
      rw [Operation.requireArity, if_neg (mt (accepts_cleanHtml _).1 hcount)]
      rfl
    rw [if_neg hcount, Registry.formOf, builtin_get_cleanHtml]
    simp only [bind, Except.bind, harity]

/-- The call of the helper that cleans `value` and keeps `tags`. -/
def cleanedExpr (target : TextTarget) (value : Expr) (tags : List String) : Expr :=
  .call (.name (target.helpers ++ "." ++ cleanHtmlHelper target.dialect))
    (value :: if tags = [] then [] else [.array (tags.map fun tag => .literal (.str tag))])

/-- The invocation that cleans `value` and keeps `tags`. -/
def cleanedInvocation (value : Operand) (tags : List String) : Invocation where
  method := if tags = [] then ⟨MethodId.sanitizersCleanHtml, "Sanitizers", "cleanHtml", 1, .static⟩
    else ⟨MethodId.sanitizersCleanHtmlTags, "Sanitizers", "cleanHtml", 2, .static⟩
  receiver := none
  args := value :: if tags = [] then [] else [.constant (.strings tags)]

theorem cleanHtmlExpr_cons (value : Expr) (extras : List Expr) (target : TextTarget) :
    cleanHtmlExpr (value :: extras) target =
      (safeTags.pickAll (extras.map Expr.spelling)).map (cleanedExpr target value) := by
  have htags : requestedTags ((value :: extras).map Expr.spelling) =
      safeTags.pickAll (extras.map Expr.spelling) := rfl
  simp only [cleanHtmlExpr, htags]
  cases safeTags.pickAll (extras.map Expr.spelling) with
  | error e => rfl
  | ok tags => cases tags <;> rfl

theorem cleanHtmlInvocation_cons (value : Operand) (extras : List Operand) {table : MethodTable}
    (h : table.Offers builtinMethods) :
    cleanHtmlInvocation (value :: extras) table =
      (safeTags.pickAll (extras.map Operand.spelling)).map (cleanedInvocation value) := by
  have htags : requestedTags ((value :: extras).map Operand.spelling) =
      safeTags.pickAll (extras.map Operand.spelling) := rfl
  have hone : table.find? "Sanitizers" "cleanHtml" 1 = some _ :=
    h ⟨MethodId.sanitizersCleanHtml, "Sanitizers", "cleanHtml", 1, .static⟩ (by decide)
  have htwo : table.find? "Sanitizers" "cleanHtml" 2 = some _ :=
    h ⟨MethodId.sanitizersCleanHtmlTags, "Sanitizers", "cleanHtml", 2, .static⟩ (by decide)
  simp only [cleanHtmlInvocation, htags]
  cases safeTags.pickAll (extras.map Operand.spelling) with
  | error e => rfl
  | ok tags =>
      cases tags with
      | nil =>
          simp only [bind, Except.bind, MethodTable.callStatic, MethodTable.select,
            MethodTable.get, List.length_singleton, hone]
          rfl
      | cons tag tags =>
          simp only [bind, Except.bind, MethodTable.callStatic, MethodTable.select,
            MethodTable.get, List.length_cons, List.length_nil, htwo]
          rfl

theorem cleanedBy_expression {args : List Expr} (target : TextTarget)
    (h : ∀ e ∈ args.tail, e.plainNames) :
    CleanedBy Expr.string? Expr.spelling (cleanedExpr target) args
      (Registry.builtin.expression "cleanHtml" args target).value := by
  have hspelled : ∀ e ∈ args.tail, Spelled e.string? e.spelling :=
    fun e he => e.spelled_render .javascript (h e he)
  have hform := formOf_cleanHtml target.backend (fun op => op.text target.dialect) rfl
    (args.map Expr.spelling)
  rw [List.length_map] at hform
  apply cleanedBy_of_pickAll hspelled
  · intro hcount
    rw [Registry.expression, hform, if_neg hcount]
  · rintro value extras rfl hlength
    rw [if_pos (by simp only [List.length_cons]; omega), List.map_cons, List.drop_one,
      List.tail_cons] at hform
    rw [Registry.expression, List.map_cons, hform]
    cases hpick : safeTags.pickAll (extras.map Expr.spelling) with
    | error e => rfl
    | ok tags => simp only [Except.map, cleanHtmlExpr_cons, hpick]

theorem cleanedBy_invocation (args : List Operand) {table : MethodTable}
    (h : table.Offers builtinMethods) :
    CleanedBy Operand.string? Operand.spelling cleanedInvocation args
      (Registry.builtin.invocation "cleanHtml" args table).value := by
  have hspelled : ∀ o ∈ args.tail, Spelled o.string? o.spelling := fun o _ => o.spelled_text
  have hform := formOf_cleanHtml .bytecode Operation.invocation rfl (args.map Operand.spelling)
  rw [List.length_map] at hform
  apply cleanedBy_of_pickAll hspelled
  · intro hcount
    rw [Registry.invocation, hform, if_neg hcount]
  · rintro value extras rfl hlength
    rw [if_pos (by simp only [List.length_cons]; omega), List.map_cons, List.drop_one,
      List.tail_cons] at hform
    rw [Registry.invocation, List.map_cons, hform]
    cases hpick : safeTags.pickAll (extras.map Operand.spelling) with
    | error e => rfl
    | ok tags => simp only [Except.map, cleanHtmlInvocation_cons value extras h, hpick]

/-- Whichever back end a call of `cleanHtml` is meant for, only the allowed
elements get through: the call is turned into the one that keeps exactly the
elements named by its later arguments, or the first argument that names none
is reported. -/
theorem cleanHtml_keeps_only_safe_tags :
    (∀ (args : List Expr) (target : TextTarget), (∀ e ∈ args.tail, e.plainNames) →
      CleanedBy Expr.string? Expr.spelling (cleanedExpr target) args
        (Registry.builtin.expression "cleanHtml" args target).value) ∧
    ∀ (args : List Operand) (table : MethodTable), table.Offers builtinMethods →
      CleanedBy Operand.string? Operand.spelling cleanedInvocation args
        (Registry.builtin.invocation "cleanHtml" args table).value :=
  ⟨fun _ target h => cleanedBy_expression target h, fun args _ h => cleanedBy_invocation args h⟩

/-- Texts that only look like a list of allowed names: a sum of two literals
and a result whose owner starts with a quote. -/
theorem cleanHtml_keeps_only_safe_tags_lookalike :
    (Registry.builtin.expression "cleanHtml"
        [.name "page", .literal (.str "ul"),
          .binary .add (.literal (.str "l")) (.literal (.str "i"))]
        ⟨.python, "rt", "  "⟩).value = .error (.malformedLiteral "'l' + 'i'") ∧
      ∃ table, MethodTable.builtin = .ok table ∧
        (Registry.builtin.invocation "cleanHtml"
          [.variable 0, .result ⟨7, "'li' + Text", "of", 0, .static⟩ none []] table).value =
            .error (.malformedLiteral "'li' + Text.of()") := by
  have hsafe : ∀ e ∈ [Expr.literal (.str "ul")], IsSafeTag e.string? := by
    simp [IsSafeTag, Expr.string?, Expr.bare]
  obtain ⟨table, htable, hoffers⟩ := exists_builtin_offers
  refine ⟨?_, table, htable, ?_⟩
  · exact (cleanHtml_keeps_only_safe_tags.1 _ _ (by decide)).first_fault _ [_] _ [] rfl (by decide)
      hsafe (by simp [IsSafeTag, Expr.string?, Expr.bare])
  · exact (cleanHtml_keeps_only_safe_tags.2 _ table hoffers).first_fault _ [] _ [] rfl (by decide)
      (by simp) (by simp [IsSafeTag, Operand.string?])

end Builtin

end TargetCode
