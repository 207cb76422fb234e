import RobotControl.Assoc
import RobotControl.Control.Stick

/-!
# Gamepads

Readings of hand-held controllers arrive at a `Hub`, each with the instant of its receipt.  A
`Gamepad` looks at one controller of the hub and does not see readings older than its maximal age,
so that a lost connection leaves no stick at full throttle.  Instants are nanoseconds and may lie
before the start of the clock.
-/
set_option autoImplicit false

namespace RobotControl

structure Reading where
  axes : List Float
  buttons : List Bool
  dpads : List Int
  received : Int

abbrev Hub := Assoc Nat Reading

structure Gamepad where
  controller : Nat
  /-- Readings may be this many nanoseconds old. -/
  maxAge : Nat
  curves : Assoc Nat Curve := ∅

namespace Gamepad

def name (g : Gamepad) : String := "Gamepad(" ++ toString g.controller ++ ")"

def reading (g : Gamepad) (hub : Hub) (now : Nat) : Option Reading :=
  (hub.get? g.controller).filter fun r => (now : Int) - r.received ≤ g.maxAge

def button (g : Gamepad) (hub : Hub) (now n : Nat) : Option Bool :=
  (g.reading hub now).bind fun r => r.buttons[n]?

def pressed (g : Gamepad) (hub : Hub) (now n : Nat) : Bool := (g.button hub now n).getD false

/-- An axis after its deadband and its curve, zero where it is not known. -/
def axis (g : Gamepad) (hub : Hub) (now n : Nat) (deadband : Float) : Float :=
  match (g.reading hub now).bind fun r => r.axes[n]? with
  | none => 0.0
  | some raw =>
      match pastDeadband raw deadband, g.curves.get? n with
      | none, _ => 0.0
      | some x, none => x
      | some x, some curve => curve.apply x

def dpad (g : Gamepad) (hub : Hub) (now n : Nat) : Int :=
  ((g.reading hub now).bind fun r => r.dpads[n]?).getD 0

def setCurve (g : Gamepad) (n : Nat) (curve : Curve) : Gamepad :=
  { g with curves := g.curves.put n curve }

def clearCurve (g : Gamepad) (n : Nat) : Gamepad := { g with curves := g.curves.erase n }

end Gamepad

end RobotControl
