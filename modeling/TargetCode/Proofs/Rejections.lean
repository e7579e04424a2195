import TargetCode.Builtin.Operations
import TargetCode.Proofs.Dispatch

/-!
What is reported about calls that are rejected.

A call is made for an expression, for an invocation or for a stream, and is
rejected by the first check that it fails: its operation, the number of its
arguments, the form that it asks for, its literals. A rejected call is reported
by one warning and by nothing else, except in one case: that an operation cannot
be streamed is returned to the caller but not reported. A call that is not
rejected is followed by no warning but those of the form that it runs, and a
sink gives none.
-/

namespace TargetCode

/-- A call of an operation, by what it is made for. The arguments of a stream
are the source texts of those after the value. -/
inductive OperationCall where
  | expression (args : List Expr) (target : TextTarget)
  | invocation (args : List Operand) (table : MethodTable)
  | stream (args : List String) (sink : Sink)

namespace OperationCall

/-- The number of arguments, the value of a stream included. -/
def arity : OperationCall → Nat
  | .expression args _ => args.length
  | .invocation args _ => args.length
  | .stream args _ => args.length + 1

/-- The source texts that are shown to the check of literals. -/
def sources : OperationCall → List String
  | .expression args _ => args.map Expr.spelling
  | .invocation args _ => args.map Operand.spelling
  | .stream args _ => args

/-- Whether an operation has the form that the call asks for. -/
def findsForm (op : Operation) : OperationCall → Bool
  | .expression _ target => (op.text target.dialect).isSome
  | .invocation _ _ => op.invocation.isSome
  | .stream _ _ => op.streaming.isSome

/-- What is wrong if an operation does not have it. -/
def missingForm (name : String) : OperationCall → Error
  | .expression _ target => .unknownBackend name target.backend
  | .invocation _ _ => .unknownBackend name .bytecode
  | .stream _ _ => .noStreamingForm name

/-- The first check that a call fails. -/
inductive Rejected (r : Registry) (name : String) (call : OperationCall) : Error → Prop where
  | operation (hop : r.find? name = none) : Rejected r name call (.unknownOperation name)
  | arity {op : Operation} (hop : r.find? name = some op)
      (harity : op.accepts call.arity = false) :
      Rejected r name call (.arityNotRegistered name call.arity)
  | form {op : Operation} (hop : r.find? name = some op) (harity : op.accepts call.arity = true)
      (hform : call.findsForm op = false) : Rejected r name call (call.missingForm name)
  | literals {op : Operation} {e : Error} (hop : r.find? name = some op)
      (harity : op.accepts call.arity = true) (hform : call.findsForm op = true)
      (hliterals : op.requireLiterals call.sources = .error e) : Rejected r name call e

/-- A stream of an operation that takes the call's arguments but cannot be
streamed. -/
def Unstreamable (r : Registry) (name : String) : OperationCall → Prop
  | .stream args _ => ∃ op, r.find? name = some op ∧ op.accepts (args.length + 1) = true ∧
      op.streaming = none
  | .expression _ _ | .invocation _ _ => False

/-- The error that a call returns, if any, whether it was rejected or its form
failed. -/
def error? (r : Registry) (name : String) : OperationCall → Option Error
  | .expression args target =>
    match (r.expression name args target).value with
    | .error e => some e
    | .ok _ => none
  | .invocation args table =>
    match (r.invocation name args table).value with
    | .error e => some e
    | .ok _ => none
  | .stream args sink =>
    match (r.stream name args sink).result with
    | .error e => some e
    | .ok _ => none

def events (r : Registry) (name : String) : OperationCall → List Event
  | .expression args target => (r.expression name args target).events
  | .invocation args table => (r.invocation name args table).events
  | .stream args sink => (r.stream name args sink).events

/-- What is reported by the form that a call runs. Only a streaming form has a
sink at hand, and may report anything. -/
def formEvents (r : Registry) (name : String) : OperationCall → List Event
  | .expression _ _ | .invocation _ _ => []
  | .stream args sink =>
    match (r.find? name).bind Operation.streaming with
    | some form => (form args sink).events
    | none => []

end OperationCall

def Event.isWarning (event : Event) : Bool :=
  event.severity = .warn

/-- The events are a single warning that names the operation and tells why the
call was rejected. -/
def LoggedOnce (name : String) (e : Error) (events : List Event) : Prop :=
  ∃ event, events = [event] ∧ event.severity = .warn ∧ event.message = "call rejected" ∧
    event.fields = [("operation", name), ("error", e.message)]

theorem loggedOnce_rejected (name : String) (e : Error) : LoggedOnce name e [.rejected name e] :=
  ⟨_, rfl, rfl, rfl, rfl⟩

namespace OperationCall

variable {r : Registry} {name : String}

theorem name_of_find? {op : Operation} (h : r.find? name = some op) : op.name = name := by
  simpa using List.find?_some h

/-- Where a form is looked for among those of a back end, the checks are those
of `Rejected`. -/
theorem formOf_eq_error_iff {φ : Type} {form : Operation → Option φ} {backend : Backend}
    (call : OperationCall) (hcount : call.arity = call.sources.length)
    (hform : ∀ op, call.findsForm op = (form op).isSome)
    (hmissing : call.missingForm name = .unknownBackend name backend) (e : Error) :
    r.formOf backend form name call.sources = .error e ↔ call.Rejected r name e := by
  unfold Registry.formOf Registry.get
  simp only [bind, Except.bind, Operation.requireArity, ← hcount]
  constructor
  · intro h
    cases hop : r.find? name with
    | none =>
        simp only [hop] at h
        obtain rfl := Except.error.inj h
        exact .operation hop
    | some op =>
        simp only [hop] at h
        cases harity : op.accepts call.arity with
        | false =>
            simp only [harity, Bool.false_eq_true, if_false] at h
            obtain rfl := Except.error.inj h
            rw [name_of_find? hop]
            exact .arity hop harity
        | true =>
            simp only [harity, if_true] at h
            cases hf : form op with
            | none =>
                simp only [hf] at h
                obtain rfl := Except.error.inj h
                rw [← hmissing]
                exact .form hop harity (by rw [hform, hf]; rfl)
            | some f =>
                simp only [hf] at h
                refine .literals hop harity (by rw [hform, hf]; rfl) ?_
                cases hliterals : op.requireLiterals call.sources with
                | error e' => simpa [hliterals] using h
                | ok u => simp [hliterals, pure, Except.pure] at h
  · rintro (⟨hop⟩ | ⟨hop, harity⟩ | ⟨hop, harity, hf⟩ | ⟨hop, harity, hf, hliterals⟩)
    · simp [hop]
    · simp [hop, harity, name_of_find? hop]
    · rw [hform, Option.isSome_eq_false_iff, Option.isNone_iff_eq_none] at hf
      simp [hop, harity, hf, hmissing]
    · rw [hform, Option.isSome_iff_exists] at hf
      obtain ⟨f, hf⟩ := hf
      simp [hop, harity, hf, hliterals]

theorem rejected_expression_iff (args : List Expr) (target : TextTarget) (e : Error) :
    (expression args target).Rejected r name e ↔
      r.formOf target.backend (fun op => op.text target.dialect) name (args.map Expr.spelling) =
        .error e :=
  (formOf_eq_error_iff (expression args target) (by simp [arity, sources])
    (fun _ => rfl) rfl e).symm

theorem rejected_invocation_iff (args : List Operand) (table : MethodTable) (e : Error) :
    (invocation args table).Rejected r name e ↔
      r.formOf .bytecode Operation.invocation name (args.map Operand.spelling) = .error e :=
  (formOf_eq_error_iff (invocation args table) (by simp [arity, sources])
    (fun _ => rfl) rfl e).symm

/-! ### Calls that are rejected -/

theorem expression_eq_of_rejected {args : List Expr} {target : TextTarget} {e : Error}
    (h : (expression args target).Rejected r name e) :
    r.expression name args target = ⟨.error e, [.rejected name e]⟩ :=
  (r.expression_eq_rejected_iff name args target e).2 ((rejected_expression_iff args target e).1 h)

theorem invocation_eq_of_rejected {args : List Operand} {table : MethodTable} {e : Error}
    (h : (invocation args table).Rejected r name e) :
    r.invocation name args table = ⟨.error e, [.rejected name e]⟩ :=
  (r.invocation_eq_rejected_iff name args table e).2
    ((rejected_invocation_iff args table e).1 h)

/-- A stream that is not opened leaves the sink alone. It is reported unless the
streaming form is what is missing. -/
theorem stream_eq_of_rejected {args : List String} {sink : Sink} {e : Error}
    (h : (stream args sink).Rejected r name e) :
    r.stream name args sink = ⟨sink, [.rejected name e], .error e⟩ ∧
        ¬(stream args sink).Unstreamable r name ∨
      r.stream name args sink = ⟨sink, [], .error e⟩ ∧ (stream args sink).Unstreamable r name := by
  unfold Registry.stream Registry.get
  cases h with
  | operation hop =>
      refine .inl ⟨by simp [hop], ?_⟩
      rintro ⟨op, hop', -⟩
      simp [hop] at hop'
  | @arity op hop harity =>
      have hcount : op.accepts (args.length + 1) = false := harity
      refine .inl ⟨by simp [hop, Operation.requireArity, hcount, name_of_find? hop, arity], ?_⟩
      rintro ⟨op', hop', hcount', -⟩
      obtain rfl := Option.some.inj (hop.symm.trans hop')
      simp [hcount] at hcount'
  | @form op hop harity hform =>
      have hcount : op.accepts (args.length + 1) = true := harity
      have hnone : op.streaming = none := by simpa [findsForm] using hform
      refine .inr ⟨?_, op, hop, hcount, hnone⟩
      simp [hop, Operation.requireArity, hcount, hnone, missingForm]
  | @literals op e hop harity hform hliterals =>
      have hcount : op.accepts (args.length + 1) = true := harity
      obtain ⟨form, hsome⟩ := Option.isSome_iff_exists.1 (show op.streaming.isSome from hform)
      have hfault : op.requireLiterals args = .error e := hliterals
      refine .inl ⟨by simp [hop, Operation.requireArity, hcount, hsome, hfault], ?_⟩
      rintro ⟨op', hop', -, hnone⟩
      obtain rfl := Option.some.inj (hop.symm.trans hop')
      simp [hsome] at hnone

theorem rejected_of_unstreamable {call : OperationCall} (h : call.Unstreamable r name) :
    call.Rejected r name (.noStreamingForm name) := by
  match call, h with
  | .stream args sink, ⟨op, hop, harity, hnone⟩ =>
    have hform : (stream args sink).findsForm op = false := by simp [findsForm, hnone]
    exact .form hop harity hform

/-! ### Calls that pass -/

/-- A stream is opened with one event before those of its form. -/
theorem stream_events_of_passes {args : List String} {sink : Sink}
    (h : ∀ e, ¬(stream args sink).Rejected r name e) :
    (r.stream name args sink).events =
      .openingStream name :: (stream args sink).formEvents r name := by
  cases hop : r.find? name with
  | none => exact absurd (.operation hop) (h _)
  | some op =>
      cases harity : op.accepts (args.length + 1) with
      | false => exact absurd (.arity hop harity) (h _)
      | true =>
          cases hform : op.streaming with
          | none => exact absurd (.form hop harity (by simp [findsForm, hform])) (h _)
          | some form =>
              cases hliterals : op.requireLiterals args with
              | error e =>
                  exact absurd (.literals hop harity (by simp [findsForm, hform]) hliterals) (h e)
              | ok u =>
                  simp [Registry.stream, Registry.get, hop, Operation.requireArity, harity, hform,
                    hliterals, formEvents]

/-- Dispatch itself gives no warning if the call passes. -/
theorem warnings_of_passes {call : OperationCall} (h : ∀ e, ¬call.Rejected r name e) :
    (call.events r name).filter Event.isWarning =
      (call.formEvents r name).filter Event.isWarning := by
  cases call with
  | expression args target =>
      rw [events, Registry.expression]
      cases hform : r.formOf target.backend (fun op => op.text target.dialect) name
          (args.map Expr.spelling) with
      | error e => exact absurd ((rejected_expression_iff args target e).2 hform) (h e)
      | ok form => rfl
  | invocation args table =>
      rw [events, Registry.invocation]
      cases hform : r.formOf .bytecode Operation.invocation name (args.map Operand.spelling) with
      | error e => exact absurd ((rejected_invocation_iff args table e).2 hform) (h e)
      | ok form =>
          dsimp only
          cases form args table <;> rfl
  | stream args sink =>
      rw [events, stream_events_of_passes h]
      rfl

end OperationCall

theorem Layer.severity_stepLogOnly {depth : Nat} {call : Call} {event : Event}
    (h : event ∈ (stepLogOnly depth call).events) : event.severity ≠ .warn := by
  cases call with
  | enter region =>
      rw [stepLogOnly] at h
      split at h
      · split at h
        · simp at h
        · rw [List.mem_singleton.1 h]
          simp [Event.severity]
      · simp at h
  | exit =>
      rw [stepLogOnly] at h
      split at h
      · rw [List.mem_singleton.1 h]
        simp [Event.severity]
      · simp at h
  | text _ | char _ | range _ _ _ | logging _ | flush => simp [stepLogOnly] at h

theorem Layer.severity_step {layer : Layer} {call : Call} {event : Event}
    (h : event ∈ (layer.step call).events) : event.severity ≠ .warn := by
  cases layer with
  | logOnly depth => exact severity_stepLogOnly h
  | escapeHtml => simp [step] at h
  | tracing => cases call <;> simp_all [step, traceCall, Event.severity]

/-- No call on a sink gives a warning, whatever layers are on the sink. -/
theorem Sink.severity_perform {sink : Sink} {call : Call} {event : Event}
    (h : event ∈ (sink.perform call).events) : event.severity ≠ .warn := by
  induction sink generalizing call with
  | base b => simp [perform] at h
  | layered layer inner ih =>
      rw [perform] at h
      dsimp only at h
      split at h
      · rcases List.mem_append.1 h with h | h
        · exact layer.severity_step h
        · exact ih h
      · exact layer.severity_step h
      · exact layer.severity_step h

namespace OperationCall

/-- Any call in any registry. If a check fails, the caller gets the error of the
first one that does, and the call is reported by exactly one warning, with its
operation and the error, unless the operation cannot be streamed: then nothing is
reported. If no check fails, every warning comes from the form that is run, and
none from the sink below it. -/
theorem rejection_logged_once_iff (r : Registry) (name : String) (call : OperationCall) :
    (∀ e, call.Rejected r name e →
      call.error? r name = some e ∧
        (LoggedOnce name e (call.events r name) ↔ ¬call.Unstreamable r name)) ∧
    (call.Unstreamable r name →
      call.Rejected r name (.noStreamingForm name) ∧ call.events r name = []) ∧
    ((∀ e, ¬call.Rejected r name e) →
      (call.events r name).filter Event.isWarning =
        (call.formEvents r name).filter Event.isWarning) ∧
    ∀ (sink : Sink) (request : Call), ∀ event ∈ (sink.perform request).events,
      event.severity ≠ .warn := by
  refine ⟨fun e h => ?_, fun h => ?_, warnings_of_passes, fun _ _ _ => Sink.severity_perform⟩
  · cases call with
    | expression args target =>
        rw [error?, events, expression_eq_of_rejected h]
        exact ⟨rfl, iff_of_true (loggedOnce_rejected name e) id⟩
    | invocation args table =>
        rw [error?, events, invocation_eq_of_rejected h]
        exact ⟨rfl, iff_of_true (loggedOnce_rejected name e) id⟩
    | stream args sink =>
        rw [error?, events]
        rcases stream_eq_of_rejected h with ⟨hstream, hform⟩ | ⟨hstream, hform⟩
        · rw [hstream]
          exact ⟨rfl, iff_of_true (loggedOnce_rejected name e) hform⟩
        · rw [hstream]
          refine ⟨rfl, iff_of_false ?_ (not_not_intro hform)⟩
          rintro ⟨event, hevents, -⟩
          contradiction
  · have hrejected := rejected_of_unstreamable h
    refine ⟨hrejected, ?_⟩
    match call, h, hrejected with
    | .stream args sink, h, hrejected =>
      rcases stream_eq_of_rejected hrejected with ⟨-, hform⟩ | ⟨hstream, -⟩
      · exact absurd h hform
      · rw [events, hstream]

/-- The lists of `flat` cannot be streamed. The caller is told, but the log is
empty. -/
theorem unstreamable_call_not_logged :
    let call : OperationCall := .stream [] (.base (.buffer ""))
    call.Rejected .builtin "flat" (.noStreamingForm "flat") ∧
      call.error? .builtin "flat" = some (.noStreamingForm "flat") ∧
      ¬LoggedOnce "flat" (.noStreamingForm "flat") (call.events .builtin "flat") := by
  intro call
  refine ⟨rejected_of_unstreamable ⟨_, rfl, rfl, rfl⟩, rfl, ?_⟩
  rintro ⟨event, hevents, -⟩
  have hnone : call.events .builtin "flat" = [] := rfl
  rw [hnone] at hevents
  contradiction

end OperationCall

end TargetCode
