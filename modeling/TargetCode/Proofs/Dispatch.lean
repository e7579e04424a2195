import TargetCode.Registry

/-!
What a registry does, told from its history.

Operations are made by a series of steps, in which a later one takes the
place of an earlier one, and are then handed to a registry, which refuses some
of them. Afterwards neither series matters except for two things: the first
usable operation of a name is the one that is called, and what is called is the
form that was set last. The order of the checks before a form is run is stated
here for all back ends at once.
-/

namespace TargetCode

/-- One thing that is set while an operation is made. -/
inductive Recipe.Step where
  | text (d : Dialect) (form : TextForm)
  | everyText (form : TextForm)
  | invocation (form : InvocationForm)
  | literals (check : LiteralCheck)
  | streaming (form : StreamingForm)

namespace Recipe.Step

def apply (op : Operation) : Step → Operation
  | .text d form => op.withText d form
  | .everyText form => op.withEveryText form
  | .invocation form => op.withInvocation form
  | .literals check => op.withLiterals check.first check.check
  | .streaming form => op.withStreaming form

/-- The form that a step gives for a dialect. -/
def text? (d : Dialect) : Step → Option TextForm
  | .text d' form => if d' = d then some form else none
  | .everyText form => some form
  | .invocation _ | .literals _ | .streaming _ => none

def invocation? : Step → Option InvocationForm
  | .invocation form => some form
  | .text _ _ | .everyText _ | .literals _ | .streaming _ => none

def literals? : Step → Option LiteralCheck
  | .literals check => some check
  | .text _ _ | .everyText _ | .invocation _ | .streaming _ => none

/-- Whether a step gives a form for some back end. -/
def isForm : Step → Bool
  | .text _ _ | .everyText _ | .invocation _ => true
  | .literals _ | .streaming _ => false

/-- The step with other forms in place of those that a call runs. -/
def withForms (text : TextForm) (invocation : InvocationForm) : Step → Step
  | .text d _ => .text d text
  | .everyText _ => .everyText text
  | .invocation _ => .invocation invocation
  | .literals check => .literals check
  | .streaming form => .streaming form

theorem isForm_iff (s : Step) :
    s.isForm = true ↔ (∃ d, (s.text? d).isSome = true) ∨ s.invocation?.isSome = true := by
  cases s with
  | text d form => simp [isForm, text?]
  | everyText form => exact iff_of_true rfl (.inl ⟨.javascript, rfl⟩)
  | invocation form => simp [isForm, invocation?]
  | literals check => simp [isForm, text?, invocation?]
  | streaming form => simp [isForm, text?, invocation?]

theorem text?_withForms (text : TextForm) (invocation : InvocationForm) (d : Dialect) (s : Step) :
    (s.withForms text invocation).text? d = (s.text? d).map fun _ => text := by
  cases s with
  | text d' form =>
      rw [withForms, text?, text?]
      split <;> rfl
  | _ => rfl

theorem invocation?_withForms (text : TextForm) (invocation : InvocationForm) (s : Step) :
    (s.withForms text invocation).invocation? = s.invocation?.map fun _ => invocation := by
  cases s <;> rfl

end Recipe.Step

namespace Operation

theorem mem_insertArity (m n : Nat) (arities : List Nat) :
    m ∈ insertArity n arities ↔ m = n ∨ m ∈ arities := by
  fun_induction insertArity n arities with
  | case1 => simp
  | case2 k rest h => simp
  | case3 rest h => simp
  | case4 k rest h h' ih =>
      rw [List.mem_cons, List.mem_cons, ih]
      exact or_left_comm

theorem mem_make_arities (n : Nat) (name : String) (arities : List Nat) :
    n ∈ (make name arities).arities ↔ n ∈ arities := by
  induction arities with
  | nil => rfl
  | cons m arities ih =>
      rw [List.mem_cons, ← ih]
      exact mem_insertArity n m _

theorem isEmpty_backends_eq_false_iff (op : Operation) :
    op.backends.isEmpty = false ↔
      (∃ d, (op.text d).isSome = true) ∨ op.invocation.isSome = true := by
  rw [List.isEmpty_eq_false_iff_exists_mem]
  constructor
  · rintro ⟨backend, hbackend⟩
    have hform := (List.mem_filter.1 hbackend).2
    cases backend with
    | javascript => exact .inl ⟨.javascript, hform⟩
    | python => exact .inl ⟨.python, hform⟩
    | bytecode => exact .inr hform
  · rintro (⟨d, htext⟩ | hinvocation)
    · cases d with
      | javascript => exact ⟨.javascript, List.mem_filter.2 ⟨by decide, htext⟩⟩
      | python => exact ⟨.python, List.mem_filter.2 ⟨by decide, htext⟩⟩
    · exact ⟨.bytecode, List.mem_filter.2 ⟨by decide, hinvocation⟩⟩

end Operation

/-- How an operation is made. -/
structure Recipe where
  name : String
  arities : List Nat
  /-- The oldest first. -/
  steps : List Recipe.Step

namespace Recipe

def operation (recipe : Recipe) : Operation :=
  recipe.steps.foldl Step.apply (.make recipe.name recipe.arities)

/-- What the latest step of some kind has set. -/
def latest? {α : Type} (recipe : Recipe) (get : Step → Option α) : Option α :=
  recipe.steps.reverse.findSome? get

/-- It takes some number of arguments and has a form for some back end. -/
def Usable (recipe : Recipe) : Prop :=
  recipe.arities ≠ [] ∧ ∃ s ∈ recipe.steps, s.isForm = true

instance (recipe : Recipe) : Decidable recipe.Usable :=
  inferInstanceAs (Decidable (_ ∧ _))

/-- A part of an operation that each step leaves alone or replaces is the
one that was set last. -/
theorem operation_part {α : Type} (part : Operation → Option α) (get : Step → Option α)
    (hmake : ∀ name arities, part (.make name arities) = none)
    (happly : ∀ op s, part (Step.apply op s) = (get s).or (part op)) (recipe : Recipe) :
    part recipe.operation = recipe.latest? get := by
  have hfold : ∀ (steps : List Step) (op : Operation),
      part (steps.foldl Step.apply op) = (steps.reverse.findSome? get).or (part op) := by
    intro steps
    induction steps with
    | nil => intro op; rfl
    | cons s steps ih =>
        intro op
        rw [List.foldl_cons, ih, happly, List.reverse_cons, List.findSome?_append,
          List.findSome?_singleton, Option.or_assoc]
  rw [operation, hfold, hmake, Option.or_none, latest?]

theorem operation_text (recipe : Recipe) (d : Dialect) :
    recipe.operation.text d = recipe.latest? (Step.text? d) := by
  apply operation_part (fun op => op.text d) (Step.text? d) (fun _ _ => rfl)
  intro op s
  cases s with
  | text d' form =>
      by_cases hd : d = d'
      · simp [Step.apply, Operation.withText, Step.text?, hd]
      · simp [Step.apply, Operation.withText, Step.text?, hd, Ne.symm hd]
  | _ => rfl

theorem operation_invocation (recipe : Recipe) :
    recipe.operation.invocation = recipe.latest? Step.invocation? := by
  apply operation_part Operation.invocation Step.invocation? (fun _ _ => rfl)
  intro op s
  cases s <;> rfl

theorem operation_literals (recipe : Recipe) :
    recipe.operation.literals = recipe.latest? Step.literals? := by
  apply operation_part Operation.literals Step.literals? (fun _ _ => rfl)
  intro op s
  cases s <;> rfl

/-- A part of an operation that no step touches is as it was made. -/
theorem operation_fixed {α : Type} (part : Operation → α)
    (happly : ∀ op s, part (Step.apply op s) = part op) (recipe : Recipe) :
    part recipe.operation = part (.make recipe.name recipe.arities) := by
  have hfold : ∀ (steps : List Step) (op : Operation),
      part (steps.foldl Step.apply op) = part op := by
    intro steps
    induction steps with
    | nil => exact fun _ => rfl
    | cons s steps ih => exact fun op => (ih _).trans (happly op s)
  exact hfold _ _

@[simp] theorem operation_name (recipe : Recipe) : recipe.operation.name = recipe.name :=
  operation_fixed Operation.name (fun _ s => by cases s <;> rfl) recipe

theorem mem_operation_arities (recipe : Recipe) (n : Nat) :
    n ∈ recipe.operation.arities ↔ n ∈ recipe.arities := by
  rw [operation_fixed Operation.arities (fun _ s => by cases s <;> rfl),
    Operation.mem_make_arities]

theorem operation_accepts (recipe : Recipe) (n : Nat) :
    recipe.operation.accepts n = true ↔ n ∈ recipe.arities := by
  rw [Operation.accepts, List.contains_iff_mem, mem_operation_arities]

theorem operation_arities_isEmpty (recipe : Recipe) :
    recipe.operation.arities.isEmpty = true ↔ recipe.arities = [] := by
  simp only [List.isEmpty_iff, List.eq_nil_iff_forall_not_mem, mem_operation_arities]

theorem isSome_latest?_iff {α : Type} (recipe : Recipe) (get : Step → Option α) :
    (recipe.latest? get).isSome = true ↔ ∃ s ∈ recipe.steps, (get s).isSome = true := by
  simp [latest?, List.findSome?_isSome_iff]

/-- An operation lists some back end if one of its steps gives a form. -/
theorem operation_backends (recipe : Recipe) :
    recipe.operation.backends.isEmpty = false ↔ ∃ s ∈ recipe.steps, s.isForm = true := by
  rw [Operation.isEmpty_backends_eq_false_iff, operation_invocation, isSome_latest?_iff]
  simp only [operation_text, isSome_latest?_iff, Step.isForm_iff]
  constructor
  · rintro (⟨d, s, hs, htext⟩ | ⟨s, hs, hinvocation⟩)
    · exact ⟨s, hs, .inl ⟨d, htext⟩⟩
    · exact ⟨s, hs, .inr hinvocation⟩
  · rintro ⟨s, hs, ⟨d, htext⟩ | hinvocation⟩
    · exact .inl ⟨d, s, hs, htext⟩
    · exact .inr ⟨s, hs, hinvocation⟩

end Recipe

/-! ### Assembly -/

/-- The first recipe for a name that can be used. -/
def held? (history : List Recipe) (name : String) : Option Recipe :=
  history.find? fun recipe => recipe.name = name ∧ recipe.Usable

/-- Why an operation is not added to those of a history. -/
def refusal? (history : List Recipe) (recipe : Recipe) : Option Error :=
  if recipe.arities = [] then some (.noArities recipe.name)
  else if ¬∃ s ∈ recipe.steps, s.isForm = true then some (.noForms recipe.name)
  else if (held? history recipe.name).isSome then some (.duplicateOperation recipe.name)
  else none

theorem held?_concat (history : List Recipe) (recipe : Recipe) (name : String) :
    held? (history ++ [recipe]) name = (held? history name).or
      (if recipe.name = name ∧ recipe.Usable then some recipe else none) := by
  rw [held?, held?, List.find?_append, List.find?_singleton]
  simp

theorem refusal?_eq_none_iff {history : List Recipe} {recipe : Recipe} :
    refusal? history recipe = none ↔ recipe.Usable ∧ held? history recipe.name = none := by
  unfold refusal? Recipe.Usable
  split
  · simp [*]
  · split
    · simp [*]
    · simp_all

/-- The last recipe adds nothing to what is held if it is refused. -/
theorem held?_concat_of_refusal? {history : List Recipe} {recipe : Recipe} {e : Error}
    (h : refusal? history recipe = some e) (name : String) :
    held? (history ++ [recipe]) name = held? history name := by
  rw [held?_concat]
  split
  · next hrecipe =>
      obtain ⟨rfl, husable⟩ := hrecipe
      cases hheld : held? history recipe.name with
      | some first => rfl
      | none => simp [refusal?_eq_none_iff.2 ⟨husable, hheld⟩] at h
  · exact Option.or_none

namespace Registry

/-- The registry after attempts to add one operation after the other. -/
def assembled (history : List Recipe) : Registry :=
  history.foldl (fun r recipe => (r.register recipe.operation).registry) .empty

theorem isSome_find?_iff (r : Registry) (name : String) :
    (r.find? name).isSome = true ↔ name ∈ r.operations.map Operation.name := by
  rw [find?, List.find?_isSome, List.mem_map]
  simp

/-- What a registry has to do with the history of attempts to add to it. -/
structure Reflects (r : Registry) (history : List Recipe) : Prop where
  find?_eq : ∀ name, r.find? name = (held? history name).map Recipe.operation
  nodup : (r.operations.map Operation.name).Nodup

namespace Reflects

variable {r : Registry} {history : List Recipe}

theorem fault?_eq (h : r.Reflects history) (recipe : Recipe) :
    r.fault? recipe.operation = refusal? history recipe := by
  have hbackends : recipe.operation.backends.isEmpty = true ↔
      ¬∃ s ∈ recipe.steps, s.isForm = true := by
    rw [← Bool.not_eq_false, recipe.operation_backends]
  rw [fault?, refusal?, h.find?_eq, recipe.operation_name, Option.isSome_map]
  simp only [recipe.operation_arities_isEmpty, hbackends]

/-- One attempt to add an operation. -/
theorem register (h : r.Reflects history) (recipe : Recipe) :
    (r.register recipe.operation).registry.Reflects (history ++ [recipe]) := by
  rw [Registry.register, h.fault?_eq]
  cases hrefusal : refusal? history recipe with
  | some e =>
      refine ⟨fun name => ?_, h.nodup⟩
      rw [held?_concat_of_refusal? hrefusal]
      exact h.find?_eq name
  | none =>
      obtain ⟨husable, hheld⟩ := refusal?_eq_none_iff.1 hrefusal
      constructor
      · intro name
        -- The new operation is the last one on both sides, so any earlier one of
        -- the same name goes first.
        have hlast : [recipe.operation].find? (fun op => op.name = name) =
            (if recipe.name = name ∧ recipe.Usable then some recipe else none).map
              Recipe.operation := by
          rw [List.find?_singleton, recipe.operation_name]
          by_cases hname : recipe.name = name <;> simp [hname, husable]
        rw [held?_concat, Option.map_or, ← h.find?_eq, ← hlast]
        exact List.find?_append
      · rw [List.map_append, List.nodup_append]
        refine ⟨h.nodup, by simp, ?_⟩
        rintro name hname _ hlast rfl
        obtain rfl : name = recipe.name := by simpa using hlast
        rw [← isSome_find?_iff, h.find?_eq, hheld] at hname
        contradiction

theorem registerEach (h : r.Reflects history) (more : List Recipe) :
    (more.foldl (fun r recipe => (r.register recipe.operation).registry) r).Reflects
      (history ++ more) := by
  induction more generalizing r history with
  | nil => simpa using h
  | cons recipe more ih =>
      rw [List.append_cons]
      exact ih (h.register recipe)

theorem mem_names_iff (h : r.Reflects history) (name : String) :
    name ∈ r.names ↔ (held? history name).isSome = true := by
  rw [names, List.mem_mergeSort, ← isSome_find?_iff, h.find?_eq, Option.isSome_map]

theorem names_ascending (h : r.Reflects history) : r.names.Pairwise (· < ·) := by
  have hsorted : r.names.Pairwise fun a b => decide (a ≤ b) = true :=
    List.pairwise_mergeSort (fun a b c hab hbc => by
      simp only [decide_eq_true_eq] at *
      exact String.le_trans hab hbc)
      (fun a b => by simpa using String.le_total a b) _
  have hnodup : r.names.Nodup := (List.mergeSort_perm _ _).nodup_iff.2 h.nodup
  refine (hsorted.and hnodup).imp ?_
  rintro a b ⟨hle, hne⟩
  -- Strings are totally ordered, so what is below and different is less.
  refine String.not_le.1 fun hba => hne ?_
  exact String.le_antisymm (of_decide_eq_true hle) hba

end Reflects

theorem reflects_assembled (history : List Recipe) : (assembled history).Reflects history := by
  have hempty : empty.Reflects [] := ⟨fun _ => rfl, .nil⟩
  exact hempty.registerEach history

end Registry

/-! ### Dispatch -/

/-- What the check of literals that was set last finds wrong. It is shown the
source texts from its own first argument on. -/
def Recipe.literalFault? (recipe : Recipe) (sources : List String) : Option Error :=
  match recipe.latest? Step.literals? with
  | none => none
  | some literals =>
    match literals.check (sources.drop literals.first) with
    | .ok () => none
    | .error e => some e

theorem Recipe.requireArity_operation (recipe : Recipe) (n : Nat) :
    recipe.operation.requireArity n =
      if n ∈ recipe.arities then .ok () else .error (.arityNotRegistered recipe.name n) := by
  simp only [Operation.requireArity, recipe.operation_accepts, recipe.operation_name]

theorem Recipe.requireLiterals_operation (recipe : Recipe) (sources : List String) :
    recipe.operation.requireLiterals sources =
      match recipe.literalFault? sources with
      | none => .ok ()
      | some e => .error e := by
  rw [Operation.requireLiterals, literalFault?, recipe.operation_literals]
  cases recipe.latest? Recipe.Step.literals? with
  | none => rfl
  | some literals =>
      dsimp only
      cases literals.check (sources.drop literals.first) <;> rfl

/-- The form that a call runs, or the first reason not to run any. `get` tells
which steps give a form for the back end. -/
def verdict {φ : Type} (history : List Recipe) (backend : Backend)
    (get : Recipe.Step → Option φ) (name : String) (sources : List String) : Except Error φ :=
  match held? history name with
  | none => .error (.unknownOperation name)
  | some recipe =>
    if sources.length ∈ recipe.arities then
      match recipe.latest? get, recipe.literalFault? sources with
      | none, _ => .error (.unknownBackend name backend)
      | some _, some e => .error e
      | some form, none => .ok form
    else .error (.arityNotRegistered name sources.length)

/-- A call of an operation ends as its verdict says: with nothing but the
rejection, or in whatever way the form ends. -/
def Logged.Follows {φ β : Type} (outcome : Logged (Except Error β)) (name : String)
    (run : φ → Except Error β) : Except Error φ → Prop
  | .error e => outcome = ⟨.error e, [.rejected name e]⟩
  | .ok form => outcome.value = run form

theorem name_of_held? {history : List Recipe} {name : String} {recipe : Recipe}
    (h : held? history name = some recipe) : recipe.name = name := by
  have hfound := List.find?_some h
  exact (of_decide_eq_true hfound).1

namespace Registry

/-- A call is logged as rejected only if a check fails, not if the form that it
runs fails. -/
theorem expression_eq_rejected_iff (r : Registry) (name : String) (args : List Expr)
    (target : TextTarget) (e : Error) :
    r.expression name args target = ⟨.error e, [.rejected name e]⟩ ↔
      r.formOf target.backend (fun op => op.text target.dialect) name (args.map Expr.spelling) =
        .error e := by
  rw [expression]
  cases r.formOf target.backend (fun op => op.text target.dialect) name
    (args.map Expr.spelling) <;> simp

theorem invocation_eq_rejected_iff (r : Registry) (name : String) (args : List Operand)
    (table : MethodTable) (e : Error) :
    r.invocation name args table = ⟨.error e, [.rejected name e]⟩ ↔
      r.formOf .bytecode Operation.invocation name (args.map Operand.spelling) = .error e := by
  rw [invocation]
  cases r.formOf .bytecode Operation.invocation name (args.map Operand.spelling) with
  | error e' => simp
  | ok form =>
      dsimp only
      cases form args table <;> simp

/-- A form is run if every check passes, and only then. -/
theorem formOf_eq_ok_iff (r : Registry) {φ : Type} (backend : Backend)
    (form : Operation → Option φ) (name : String) (sources : List String) (f : φ) :
    r.formOf backend form name sources = .ok f ↔
      ∃ op, r.find? name = some op ∧ op.accepts sources.length = true ∧ form op = some f ∧
        op.requireLiterals sources = .ok () := by
  unfold formOf Registry.get
  cases r.find? name with
  | none => simp [bind, Except.bind]
  | some op =>
      simp only [bind, Except.bind, Operation.requireArity]
      cases hcount : op.accepts sources.length with
      | false => simp [hcount]
      | true =>
          cases hform : form op with
          | none => simp [hform]
          | some g => cases hliterals : op.requireLiterals sources <;>
              simp [hcount, hform, hliterals, pure, Except.pure]

theorem expression_follows (r : Registry) (name : String) (args : List Expr)
    (target : TextTarget) :
    (r.expression name args target).Follows name (fun form => form args target)
      (r.formOf target.backend (fun op => op.text target.dialect) name
        (args.map Expr.spelling)) := by
  rw [expression]
  cases r.formOf target.backend (fun op => op.text target.dialect) name
    (args.map Expr.spelling) <;> rfl

theorem invocation_follows (r : Registry) (name : String) (args : List Operand)
    (table : MethodTable) :
    (r.invocation name args table).Follows name (fun form => form args table)
      (r.formOf .bytecode Operation.invocation name (args.map Operand.spelling)) := by
  rw [invocation]
  cases r.formOf .bytecode Operation.invocation name (args.map Operand.spelling) with
  | error e => rfl
  | ok form =>
      dsimp only [Logged.Follows]
      cases form args table <;> rfl

theorem expression_eq_ok_iff (r : Registry) (name : String) (args : List Expr)
    (target : TextTarget) (e : Expr) :
    (r.expression name args target).value = .ok e ↔
      ∃ form, r.formOf target.backend (fun op => op.text target.dialect) name
        (args.map Expr.spelling) = .ok form ∧ form args target = .ok e := by
  rw [expression]
  cases r.formOf target.backend (fun op => op.text target.dialect) name
    (args.map Expr.spelling) <;> simp

theorem invocation_eq_ok_iff (r : Registry) (name : String) (args : List Operand)
    (table : MethodTable) (i : Invocation) :
    (r.invocation name args table).value = .ok i ↔
      ∃ form, r.formOf .bytecode Operation.invocation name (args.map Operand.spelling) =
        .ok form ∧ form args table = .ok i := by
  rw [invocation]
  cases r.formOf .bytecode Operation.invocation name (args.map Operand.spelling) with
  | error e => simp
  | ok form => cases hform : form args table <;> simp [hform]

end Registry

namespace Registry.Reflects

variable {r : Registry} {history : List Recipe}

theorem formOf_eq (h : r.Reflects history) {φ : Type} (form : Operation → Option φ)
    {get : Recipe.Step → Option φ}
    (hform : ∀ recipe : Recipe, form recipe.operation = recipe.latest? get)
    (backend : Backend) (name : String) (sources : List String) :
    r.formOf backend form name sources = verdict history backend get name sources := by
  unfold formOf Registry.get verdict
  rw [h.find?_eq]
  cases hheld : held? history name with
  | none => rfl
  | some recipe =>
      obtain rfl := name_of_held? hheld
      simp only [Option.map_some, bind, Except.bind, recipe.requireArity_operation, hform,
        recipe.requireLiterals_operation]
      by_cases hcount : sources.length ∈ recipe.arities
      · rw [if_pos hcount, if_pos hcount]
        cases recipe.latest? get with
        | none => rfl
        | some f => cases recipe.literalFault? sources <;> rfl
      · rw [if_neg hcount, if_neg hcount]

theorem expression_follows (h : r.Reflects history) (name : String) (args : List Expr)
    (target : TextTarget) :
    (r.expression name args target).Follows name (fun form => form args target)
      (verdict history target.backend (Recipe.Step.text? target.dialect) name
        (args.map Expr.spelling)) := by
  rw [← h.formOf_eq (fun op => op.text target.dialect)
    (fun recipe => recipe.operation_text target.dialect)]
  exact r.expression_follows name args target

theorem invocation_follows (h : r.Reflects history) (name : String) (args : List Operand)
    (table : MethodTable) :
    (r.invocation name args table).Follows name (fun form => form args table)
      (verdict history .bytecode Recipe.Step.invocation? name (args.map Operand.spelling)) := by
  rw [← h.formOf_eq Operation.invocation Recipe.operation_invocation]
  exact r.invocation_follows name args table

end Registry.Reflects

/-! ### Refusals do not look into forms -/

def Recipe.withForms (text : TextForm) (invocation : InvocationForm) (recipe : Recipe) : Recipe :=
  { recipe with steps := recipe.steps.map (Recipe.Step.withForms text invocation) }

section

variable (text : TextForm) (invocation : InvocationForm)

theorem Recipe.latest?_withForms {α : Type} (get : Step → Option α) (f : α → α)
    (hget : ∀ s, get (Step.withForms text invocation s) = (get s).map f) (recipe : Recipe) :
    (recipe.withForms text invocation).latest? get = (recipe.latest? get).map f := by
  rw [latest?, latest?, withForms, ← List.map_reverse, List.findSome?_map, List.map_findSome?]
  exact congrArg (List.findSome? · _) (funext hget)

theorem Recipe.literalFault?_withForms (recipe : Recipe) (sources : List String) :
    (recipe.withForms text invocation).literalFault? sources = recipe.literalFault? sources := by
  have hliterals := recipe.latest?_withForms text invocation Recipe.Step.literals? id
    (fun s => by cases s <;> rfl)
  rw [literalFault?, hliterals, Option.map_id]
  rfl

theorem Recipe.usable_withForms (recipe : Recipe) :
    (recipe.withForms text invocation).Usable ↔ recipe.Usable := by
  have hform : ∀ s, (Recipe.Step.withForms text invocation s).isForm = s.isForm := by
    intro s
    cases s <;> rfl
  refine and_congr_right fun _ => ⟨?_, ?_⟩
  · rintro ⟨_, hmap, hs⟩
    obtain ⟨s, hmem, rfl⟩ := List.mem_map.1 hmap
    exact ⟨s, hmem, (hform s).symm.trans hs⟩
  · rintro ⟨s, hmem, hs⟩
    exact ⟨_, List.mem_map_of_mem hmem, (hform s).trans hs⟩

theorem held?_withForms (history : List Recipe) (name : String) :
    held? (history.map (Recipe.withForms text invocation)) name =
      (held? history name).map (Recipe.withForms text invocation) := by
  have hkey : ∀ recipe : Recipe, (recipe.withForms text invocation).name = recipe.name :=
    fun _ => rfl
  rw [held?, held?, List.find?_map]
  simp only [Function.comp_def, hkey, Recipe.usable_withForms]

/-- With other forms a call is refused for the same reason. -/
theorem verdict_withForms_eq_error_iff {φ : Type} {get : Recipe.Step → Option φ} {form : φ}
    (hget : ∀ s, get (Recipe.Step.withForms text invocation s) = (get s).map fun _ => form)
    (history : List Recipe) (backend : Backend) (name : String) (sources : List String)
    (e : Error) :
    verdict (history.map (Recipe.withForms text invocation)) backend get name sources =
        .error e ↔
      verdict history backend get name sources = .error e := by
  unfold verdict
  rw [held?_withForms]
  cases held? history name with
  | none => rfl
  | some recipe =>
      have harities : (recipe.withForms text invocation).arities = recipe.arities := rfl
      have hlatest := recipe.latest?_withForms text invocation get (fun _ => form) hget
      simp only [Option.map_some, harities, hlatest, recipe.literalFault?_withForms]
      split
      · cases recipe.latest? get with
        | none => rfl
        | some _ => cases recipe.literalFault? sources <;> simp
      · rfl

end

namespace Registry

/-- A registry and its history of attempts to add operations. Each attempt
fails for the first reason that applies and then changes nothing; what is held
under a name is the first usable operation that was made with it; and a call is
refused for the first reason that applies, or runs the form that was set last.
When it is refused the form is not looked at: any other would have been refused
in the same way. -/
theorem dispatch_refines_history (history : List Recipe) :
    let r := assembled history
    (∀ recipe : Recipe,
      match refusal? history recipe with
      | some e => (r.register recipe.operation).result = .error e ∧
          (r.register recipe.operation).registry = r
      | none => (r.register recipe.operation).result = .ok ()) ∧
    (∀ name, r.find? name = (held? history name).map Recipe.operation) ∧
    (r.names.Pairwise (· < ·) ∧ ∀ name, name ∈ r.names ↔ (held? history name).isSome = true) ∧
    (∀ name args (target : TextTarget),
      (r.expression name args target).Follows name (fun form => form args target)
        (verdict history target.backend (Recipe.Step.text? target.dialect) name
          (args.map Expr.spelling))) ∧
    (∀ name args table,
      (r.invocation name args table).Follows name (fun form => form args table)
        (verdict history .bytecode Recipe.Step.invocation? name (args.map Operand.spelling))) ∧
    ∀ text invocation name e,
      let others := assembled (history.map (Recipe.withForms text invocation))
      (∀ args target, r.expression name args target = ⟨.error e, [.rejected name e]⟩ ↔
        others.expression name args target = ⟨.error e, [.rejected name e]⟩) ∧
      ∀ args table, r.invocation name args table = ⟨.error e, [.rejected name e]⟩ ↔
        others.invocation name args table = ⟨.error e, [.rejected name e]⟩ := by
  intro r
  have hr : r.Reflects history := reflects_assembled history
  refine ⟨?_, hr.find?_eq, ⟨hr.names_ascending, hr.mem_names_iff⟩, hr.expression_follows,
    hr.invocation_follows, ?_⟩
  · intro recipe
    rw [Registry.register, hr.fault?_eq]
    cases refusal? history recipe with
    | some e => exact ⟨rfl, rfl⟩
    | none => rfl
  · intro text invocation name e others
    have hothers : others.Reflects _ := reflects_assembled _
    constructor
    · intro args target
      rw [expression_eq_rejected_iff, expression_eq_rejected_iff,
        hr.formOf_eq _ (fun recipe => recipe.operation_text target.dialect),
        hothers.formOf_eq _ (fun recipe => recipe.operation_text target.dialect),
        verdict_withForms_eq_error_iff _ _ (Recipe.Step.text?_withForms text invocation _)]
    · intro args table
      rw [invocation_eq_rejected_iff, invocation_eq_rejected_iff,
        hr.formOf_eq _ Recipe.operation_invocation,
        hothers.formOf_eq _ Recipe.operation_invocation,
        verdict_withForms_eq_error_iff _ _ (Recipe.Step.invocation?_withForms text invocation)]

/-- A check that reports the texts it is shown. They are the source texts from the
second argument on, which do not depend on the dialect of the target. -/
theorem dispatch_refines_history_literals :
    let check (texts : List String) : Except Error Unit :=
      .error (.malformedLiteral (String.join (texts.map (· ++ ";"))))
    let recipe : Recipe := ⟨"tag", [4], [.everyText fun _ _ => .ok (.name "unused"),
      .invocation fun _ _ => .error (.unknownGlobal "unused"), .literals ⟨1, check⟩]⟩
    let r := assembled [recipe]
    let args : List Expr := [.name "x", .literal (.str "it's"), .literal (.bool true),
      .binary .add (.name "a") (.literal (.int 1))]
    let operands : List Operand := [.variable 0, .constant (.str "li"), .global "page" 3,
      .result ⟨7, "List", "size", 0, .static⟩ none []]
    let shown : Error := .malformedLiteral "'it\\'s';true;a + 1;"
    let received : Error := .malformedLiteral "'li';@page;List.size();"
    r.expression "tag" args ⟨.python, "rt", "  "⟩ = ⟨.error shown, [.rejected "tag" shown]⟩ ∧
      r.invocation "tag" operands .empty = ⟨.error received, [.rejected "tag" received]⟩ := by
  intro check recipe r args operands shown received
  obtain ⟨-, -, -, hexpression, hinvocation, -⟩ := dispatch_refines_history [recipe]
  have hshown : verdict [recipe] .python (Recipe.Step.text? .python) "tag"
      (args.map Expr.spelling) = .error shown := rfl
  have hreceived : verdict [recipe] .bytecode Recipe.Step.invocation? "tag"
      (operands.map Operand.spelling) = .error received := rfl
  have hexpression := hexpression "tag" args ⟨.python, "rt", "  "⟩
  have hinvocation := hinvocation "tag" operands .empty
  rw [show TextTarget.backend ⟨.python, "rt", "  "⟩ = .python from rfl, hshown] at hexpression
  rw [hreceived] at hinvocation
  exact ⟨hexpression, hinvocation⟩

end Registry

end TargetCode
