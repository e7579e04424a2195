import TargetCode.Event
import TargetCode.Sink.Call
import TargetCode.Text.Html

/-!
Layers over a sink. A layer changes a call, drops it or refuses it, and
reports what it sees.
-/

namespace TargetCode

inductive Layer where
  /-- Drops content inside log-only regions. The depth is the number of open
  regions from the outermost log-only one inwards. -/
  | logOnly (depth : Nat)
  | escapeHtml
  | tracing
  deriving DecidableEq, Repr

inductive Passage where
  | forward (call : Call)
  | drop
  | refuse (error : StreamError)
  deriving DecidableEq, Repr

/-- The layer after a call, what it reported, and what becomes of the call. -/
structure Layer.Step where
  layer : Layer
  events : List Event
  passage : Passage
  deriving DecidableEq, Repr

namespace Layer

def suppressing : Layer :=
  .logOnly 0

def maxDepth : Nat :=
  0xffffffff

/-- Edges of regions always pass, so that a log below sees all of them. -/
def stepLogOnly (depth : Nat) (call : Call) : Step :=
  match call with
  | .enter region =>
    if 0 < depth || region.logOnly then
      if depth = maxDepth then ⟨.logOnly depth, [], .refuse (.depthOverflow depth)⟩
      else
        ⟨.logOnly (depth + 1), [.suppressionEntered region.id (depth + 1)], .forward call⟩
    else ⟨.logOnly depth, [], .forward call⟩
  | .exit =>
    if 0 < depth then
      ⟨.logOnly (depth - 1), [.suppressionExited (depth - 1)], .forward call⟩
    else ⟨.logOnly depth, [], .forward call⟩
  | .flush => ⟨.logOnly depth, [], .forward call⟩
  | .text _ | .char _ | .range _ _ _ | .logging _ =>
    ⟨.logOnly depth, [], if 0 < depth then .drop else .forward call⟩

/-- Content is escaped. A range that cuts out nothing is passed on as it is,
for the sink below to refuse. -/
def escapeCall : Call → Call
  | .text s => .text (Text.escapeHtml s)
  | .char c => .text (String.ofList (Text.htmlChar c))
  | .range s start stop =>
    match Text.slice? s start stop with
    | some part => .text (Text.escapeHtml part)
    | none => .range s start stop
  | .logging call => .logging { call with placeholder := Text.escapeHtml call.placeholder }
  | .enter region => .enter region
  | .exit => .exit
  | .flush => .flush

def traceCall : Call → List Event
  | .logging call => [.loggingCall call.name]
  | .enter region => [.regionEntered region.id region.logOnly]
  | .exit => [.regionExited]
  | .text _ | .char _ | .range _ _ _ | .flush => []

def step : Layer → Call → Step
  | .logOnly depth, call => stepLogOnly depth call
  | .escapeHtml, call => ⟨.escapeHtml, [], .forward (escapeCall call)⟩
  | .tracing, call => ⟨.tracing, traceCall call, .forward call⟩

end Layer

end TargetCode
