import TargetCode.Proofs.Dispatch

/-!
Which literal arguments of a streamed call are checked.

An operation that checks literals does so from some argument on, counted from
the first argument of the call. A buffered call hands the source texts of all
its arguments to the check. The value of a streamed call counts as its first
argument, but its text is not there yet, and the check counts without it: it
begins one argument later. An argument is left out in this way whenever the
call has one at the place where the check should begin.
-/

namespace TargetCode.Registry

variable {r : Registry} {name : String} {op : Operation}

/-- A buffered call that only its literals can still stop. -/
theorem formOf_of_accepts (hop : r.find? name = some op) {sources : List String}
    (harity : op.accepts sources.length = true) {φ : Type} {form : Operation → Option φ}
    (hform : (form op).isSome = true) (backend : Backend) (e : Error) :
    r.formOf backend form name sources = .error e ↔ op.requireLiterals sources = .error e := by
  obtain ⟨f, hf⟩ := Option.isSome_iff_exists.1 hform
  simp only [formOf, Registry.get, hop, bind, Except.bind, Operation.requireArity, harity, if_true,
    hf]
  cases op.requireLiterals sources <;> simp [pure, Except.pure]

/-- A streamed call that only its literals can still stop. If they do, the sink
is returned as it was and nothing was opened. -/
theorem stream_eq_rejected_iff (hop : r.find? name = some op) {args : List String}
    (harity : op.accepts (args.length + 1) = true) (hstreaming : op.streaming.isSome = true)
    (sink : Sink) (e : Error) :
    r.stream name args sink = ⟨sink, [.rejected name e], .error e⟩ ↔
      op.requireLiterals args = .error e := by
  obtain ⟨form, hform⟩ := Option.isSome_iff_exists.1 hstreaming
  simp only [stream, Registry.get, hop, Operation.requireArity, harity, if_true, hform]
  cases op.requireLiterals args <;> simp

theorem requireLiterals_eq {literals : LiteralCheck} (h : op.literals = some literals)
    (sources : List String) :
    op.requireLiterals sources = literals.check (sources.drop literals.first) := by
  rw [Operation.requireLiterals, h]

theorem drop_succ_eq_drop_iff {α : Type} (l : List α) (n : Nat) :
    l.drop (n + 1) = l.drop n ↔ l.length ≤ n := by
  constructor
  · intro h
    have hlength := congrArg List.length h
    rw [List.length_drop, List.length_drop] at hlength
    omega
  · intro h
    rw [List.drop_eq_nil_of_le h, List.drop_eq_nil_of_le (Nat.le_succ_of_le h)]

/-- The texts that are checked in a call with the value `value` and the further
arguments `args`. Streamed and buffered, the call is rejected for what the check
finds in them, and then no form is run; but the streamed call is checked from
one argument later on. The texts are the same only if the call ends before the
argument at which the check begins. -/
theorem streamed_literals_start_one_later {literals : LiteralCheck}
    (hop : r.find? name = some op) (hliterals : op.literals = some literals)
    (hstreaming : op.streaming.isSome = true) (value : String) (args : List String)
    (harity : op.accepts (args.length + 1) = true) (sink : Sink) (e : Error) :
    let texts := value :: args
    (r.stream name args sink = ⟨sink, [.rejected name e], .error e⟩ ↔
      literals.check (texts.drop (literals.first + 1)) = .error e) ∧
    (∀ exprs (target : TextTarget), exprs.map Expr.spelling = texts →
      (op.text target.dialect).isSome = true →
      (r.expression name exprs target = ⟨.error e, [.rejected name e]⟩ ↔
        literals.check (texts.drop literals.first) = .error e)) ∧
    (∀ operands table, operands.map Operand.spelling = texts → op.invocation.isSome = true →
      (r.invocation name operands table = ⟨.error e, [.rejected name e]⟩ ↔
        literals.check (texts.drop literals.first) = .error e)) ∧
    (texts.drop (literals.first + 1) = texts.drop literals.first ↔
      args.length < literals.first) := by
  intro texts
  have hcount : op.accepts texts.length = true := harity
  refine ⟨?_, ?_, ?_, ?_⟩
  · rw [stream_eq_rejected_iff hop harity hstreaming, requireLiterals_eq hliterals,
      List.drop_succ_cons]
  · intro exprs target htexts hform
    rw [expression_eq_rejected_iff, htexts, formOf_of_accepts hop hcount hform,
      requireLiterals_eq hliterals]
  · intro operands table htexts hform
    rw [invocation_eq_rejected_iff, htexts, formOf_of_accepts hop hcount hform,
      requireLiterals_eq hliterals]
  · rw [drop_succ_eq_drop_iff, List.length_cons]
    exact Nat.succ_le_iff

/-- Refuses whatever it is shown. -/
def refuseAny : List String → Except Error Unit
  | [] => .ok ()
  | text :: _ => .error (.malformedLiteral text)

/-- Every argument after the value is refused. Both calls are rejected, but for
different arguments. -/
theorem streamed_literals_start_one_later_refused :
    let op := (Operation.make "f" [3]).withEveryText (fun args _ => .ok (.array args))
      |>.withStreaming (fun _ sink => ⟨sink, [], .ok ([], {})⟩)
      |>.withLiterals 1 refuseAny
    let r : Registry := ⟨[op]⟩
    let sink : Sink := .base (.buffer "")
    r.find? "f" = some op ∧ op.accepts 3 = true ∧
      r.stream "f" ["x", "y"] sink =
        ⟨sink, [.rejected "f" (.malformedLiteral "y")], .error (.malformedLiteral "y")⟩ ∧
      r.expression "f" [.name "v", .name "x", .name "y"] ⟨.python, "rt", "  "⟩ =
        ⟨.error (.malformedLiteral "x"), [.rejected "f" (.malformedLiteral "x")]⟩ := by
  intro op r sink
  have hop : r.find? "f" = some op := rfl
  have hliterals : op.literals = some ⟨1, refuseAny⟩ := rfl
  have hcall := streamed_literals_start_one_later hop hliterals rfl "v" ["x", "y"] rfl sink
  obtain ⟨hstream, -⟩ := hcall (.malformedLiteral "y")
  obtain ⟨-, hexpression, -⟩ := hcall (.malformedLiteral "x")
  exact ⟨hop, rfl, hstream.2 rfl, (hexpression _ _ (by decide) rfl).2 rfl⟩

/-- With one argument after the value, the same check lets the streamed call
through: its form is run and writes to the sink, although the buffered call is
rejected. -/
theorem streamed_literal_unchecked :
    let op := (Operation.make "f" [2]).withEveryText (fun args _ => .ok (.array args))
      |>.withStreaming (fun args sink =>
        ⟨(sink.perform (.text (String.join args))).sink, [], .ok ([], {})⟩)
      |>.withLiterals 1 refuseAny
    let r : Registry := ⟨[op]⟩
    r.expression "f" [.name "v", .name "x"] ⟨.javascript, "rt", "  "⟩ =
        ⟨.error (.malformedLiteral "x"), [.rejected "f" (.malformedLiteral "x")]⟩ ∧
      r.stream "f" ["x"] (.base (.buffer "")) =
        ⟨.base (.buffer "x"), [.openingStream "f"], .ok ([], {})⟩ :=
  ⟨rfl, rfl⟩

end TargetCode.Registry
