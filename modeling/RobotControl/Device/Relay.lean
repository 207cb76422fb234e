import RobotControl.Fault

/-!
# Relays

The plainest device: it is on or off, follows the mode and the watchdog as told, and counts what
is asked of it.
-/
set_option autoImplicit false

namespace RobotControl

structure Relay where
  name : String
  followsMode : Bool := false
  watched : Bool := false
  startFault : Option String := none
  on : Bool := false
  begins : Nat := 0
  enables : Nat := 0
  disables : Nat := 0
  deriving DecidableEq, Repr

namespace Relay

def start (r : Relay) : Relay × Except Fault Unit :=
  ({ r with begins := r.begins + 1 },
    match r.startFault with
    | none => .ok ()
    | some text => .error (.hardware r.name text))

def enable (r : Relay) : Relay := { r with on := true, enables := r.enables + 1 }

def disable (r : Relay) : Relay := { r with on := false, disables := r.disables + 1 }

end Relay

end RobotControl
