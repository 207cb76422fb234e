import RobotControl.Control.Fit

/-!
# Stick shaping

What happens to a raw axis value before it steers anything: a deadband around the centre with the
rest of the range stretched to the full one, then an optional curve.
-/
set_option autoImplicit false

namespace RobotControl

open Arith

/-- The deadband in use: its sign does not matter, and what is not a number stands for none. -/
def deadbandWidth {α : Type} [Arith α] (deadband : α) : α :=
  if isNaN deadband then zero else magnitude deadband

/-- Values inside the deadband read as `none`; the others are rescaled so that full deflection
stays full deflection. -/
def pastDeadband {α : Type} [Arith α] (value deadband : α) : Option α :=
  let d := deadbandWidth deadband
  if atMost one d || less (magnitude value) d then none
  else if same d zero then some value
  else some ((value - withSignOf d value) / (one - d))

def shaped {α : Type} [Arith α] (value deadband : α) : α :=
  (pastDeadband value deadband).getD zero

inductive Curve where
  | squareRoot
  | cubic (a b c d : Float)

namespace Curve

/-- The cubic fitted through `(0, least)`, a flat stretch around `(0.5, middle)` and `(1, 1)`;
`least` is the smallest output that moves the robot. -/
def fitted (least middle : Float) : Curve :=
  let least := least.abs
  let middle := middle.abs
  let cs := Fit.polynomial [0.0, 0.45, 0.5, 0.55, 1.0] [least, middle, middle, middle, 1.0] 3
  .cubic (cs.getD 3 0.0) (cs.getD 2 0.0) (cs.getD 1 0.0) (cs.getD 0 0.0)

def apply (curve : Curve) (raw : Float) : Float :=
  let x := raw.abs
  match curve with
  | .squareRoot => withSignOf x.sqrt raw
  | .cubic a b c d => withSignOf (a * power x 3 + b * power x 2 + c * x + d) raw

end Curve

end RobotControl
