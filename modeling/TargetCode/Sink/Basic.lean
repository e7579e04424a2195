import TargetCode.Sink.Base
import TargetCode.Sink.Layer

/-!
Output sinks: a base under any number of layers.
-/

namespace TargetCode

inductive Sink where
  | base (base : Base)
  | layered (layer : Layer) (inner : Sink)

/-- The sink after a call, whether the call succeeded, and what was
reported, the oldest first. -/
structure Sink.Outcome where
  sink : Sink
  result : Except StreamError Unit
  events : List Event

structure Disposal where
  flushOnFinish : Bool := true
  requiresFinish : Bool := false
  deriving DecidableEq, Repr

namespace Sink

def perform : Sink → Call → Outcome
  | .base b, call =>
    let (b, result) := b.perform call
    ⟨.base b, result, []⟩
  | .layered layer inner, call =>
    let step := layer.step call
    match step.passage with
    | .forward call =>
      let outcome := inner.perform call
      ⟨.layered step.layer outcome.sink, outcome.result, step.events ++ outcome.events⟩
    | .drop => ⟨.layered step.layer inner, .ok (), step.events⟩
    | .refuse error => ⟨.layered step.layer inner, .error error, step.events⟩

def bottom : Sink → Base
  | .base b => b
  | .layered _ inner => inner.bottom

def peel : Sink → Sink
  | .base b => .base b
  | .layered _ inner => inner

/-- Puts layers on a sink, the first one innermost. -/
def cover (s : Sink) (layers : List Layer) : Sink :=
  layers.foldl (fun s layer => .layered layer s) s

def uncover : Nat → Sink → Sink
  | 0, s => s
  | n + 1, s => uncover n s.peel

/-- The depths of the layers that suppress content, the innermost first. -/
def depths : Sink → List Nat
  | .base _ => []
  | .layered (.logOnly depth) inner => inner.depths ++ [depth]
  | .layered _ inner => inner.depths

/-- Completes a value: the sink is flushed if its disposal asks for it. -/
def finish (s : Sink) (disposal : Disposal) : Outcome :=
  if disposal.flushOnFinish || disposal.requiresFinish then s.perform .flush
  else ⟨s, .ok (), []⟩

end Sink

end TargetCode
