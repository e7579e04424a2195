import TargetCode.Error

/-!
A device that takes bytes a few at a time and has room for only so many.
-/

namespace TargetCode

structure Device where
  chunk : Nat
  limit : Nat
  /-- Whether a write that takes no byte fails on its own, instead of just
  taking none. -/
  closes : Bool
  refusesFlush : Bool
  bytes : List UInt8
  flushes : Nat

namespace Device

def room (d : Device) (count : Nat) : Nat :=
  min count (min d.chunk (d.limit - d.bytes.length))

/-- Writes piece by piece until everything is taken. What was taken before a
failure stays taken. -/
def writeAll (d : Device) (bytes : List UInt8) : Device × Except StreamError Unit :=
  match bytes with
  | [] => (d, .ok ())
  | b :: rest =>
    match d.room (rest.length + 1) with
    | 0 =>
      (d, .error (.device (if d.closes then "closed" else "failed to write whole buffer")))
    | n + 1 =>
      { d with bytes := d.bytes ++ (b :: rest.take n) }.writeAll (rest.drop n)
termination_by bytes.length

def flush (d : Device) : Device × Except StreamError Unit :=
  ({ d with flushes := d.flushes + 1 },
    if d.refusesFlush then .error (.device "flush refused") else .ok ())

end Device

end TargetCode
