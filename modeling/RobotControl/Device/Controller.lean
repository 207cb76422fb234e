import RobotControl.Device.Output
import RobotControl.Number.Arith

/-!
# Motor controllers

The state machine between whoever commands a motor and its output.  Every operation gives the
controller after it and the command that it hands to the output, if it hands one over.  Speeds are
taken only while the controller is enabled, and an output that was never initialised is never
written.
-/
set_option autoImplicit false

namespace RobotControl

structure Controller where
  initialised : Bool := false
  enabled : Bool := false
  inverted : Bool := false
  brake : Bool := false
  effective : Float := 0.0

namespace Controller

/-- A speed as seen from the other side of the inversion. -/
def turned (c : Controller) (x : Float) : Float := if c.inverted then -x else x

def command (c : Controller) : Command := ⟨c.effective, c.brake⟩

def requested (c : Controller) : Float := if c.enabled then c.turned c.effective else 0.0

/-- The state as it is, and its command if the controller drives the output. -/
def pushing (c : Controller) : Controller × Option Command :=
  (c, if c.enabled then some c.command else none)

def setSpeed (c : Controller) (x : Float) : Controller × Option Command :=
  if c.enabled then
    pushing { c with effective := c.turned (Arith.unitInput x) }
  else (c, none)

def setInverted (c : Controller) (inverted : Bool) : Controller × Option Command :=
  let asked := c.turned c.effective
  let turnedTo : Controller := { c with inverted := inverted }
  pushing { turnedTo with effective := turnedTo.turned asked }

def setBrake (c : Controller) (brake : Bool) : Controller × Option Command :=
  pushing { c with brake := brake }

/-- The state after a successful initialisation, which is made known to the output at once. -/
def initialise (c : Controller) : Controller × Option Command :=
  let c : Controller := { c with initialised := true, effective := 0.0 }
  (c, some c.command)

def enable (c : Controller) : Controller :=
  if c.initialised then { c with enabled := true } else c

def disable (c : Controller) : Controller × Option Command :=
  if c.initialised then
    let c : Controller := { c with enabled := false, effective := 0.0 }
    (c, some c.command)
  else (c, none)

theorem enabled_enable (c : Controller) : c.enable.enabled = (c.enabled || c.initialised) := by
  unfold enable
  cases h : c.initialised <;> simp

end Controller

end RobotControl
