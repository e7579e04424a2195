import TargetCode.Sink.Call
import TargetCode.Sink.Device

/-!
The sinks that keep or pass on what is written.
-/

namespace TargetCode

inductive Boundary where
  | enter (region : Region)
  | exit
  deriving DecidableEq, Repr

inductive Base where
  | buffer (content : String)
  /-- Collects the content, and the edges of regions beside it. -/
  | recorder (content : String) (boundaries : List Boundary)
  | device (device : Device)

namespace Base

def append (b : Base) (s : String) : Base × Except StreamError Unit :=
  match b with
  | .buffer content => (.buffer (content ++ s), .ok ())
  | .recorder content boundaries => (.recorder (content ++ s) boundaries, .ok ())
  | .device d =>
    let (d, result) := d.writeAll (Text.utf8 s)
    (.device d, result)

/-- Only a recorder takes notice of the edges of regions. -/
def mark (b : Base) (boundary : Boundary) : Base :=
  match b with
  | .recorder content boundaries => .recorder content (boundaries ++ [boundary])
  | .buffer _ | .device _ => b

def perform (b : Base) : Call → Base × Except StreamError Unit
  | .text s => b.append s
  | .char c => b.append (String.singleton c)
  | .range s start stop =>
    match Text.slice? s start stop with
    | some part => b.append part
    | none => (b, .error (.invalidRange start stop (Text.byteLength s)))
  | .logging call => b.append call.placeholder
  | .enter region => (b.mark (.enter region), .ok ())
  | .exit => (b.mark .exit, .ok ())
  | .flush =>
    match b with
    | .device d =>
      let (d, result) := d.flush
      (.device d, result)
    | .buffer _ | .recorder _ _ => (b, .ok ())

end Base

end TargetCode
