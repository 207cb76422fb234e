import RobotControl.Device.Fleet

/-!
# What an application does with its devices

The ways in which an application reaches the fleet: its own devices, and the readings that arrive
for gamepads.
-/
set_option autoImplicit false

namespace RobotControl

inductive FleetInput where
  | start (h : Handle)
  | enable (h : Handle)
  | disable (h : Handle)
  | drive (h : Handle) (i : Device.MotorInput)
  | drop (h : Handle)
  /-- A controller's reading that was received some nanoseconds ago. -/
  | report (controller : Nat) (axes : List Float) (buttons : List Bool) (dpads : List Int)
      (age : Nat)
  | forget (controller : Nat)
  | setCurve (h : Handle) (axis : Nat) (curve : Curve)
  | clearCurve (h : Handle) (axis : Nat)

namespace Device

def onGamepad (f : Gamepad → Gamepad) : Device → Device × List Line
  | .gamepad g => (.gamepad (f g), [])
  | d => (d, [])

end Device

namespace Fleet

def receive (f : Fleet) (controller : Nat) (r : Reading) : Fleet :=
  { f with hub := f.hub.put controller r }

def accept (f : Fleet) : FleetInput → Fleet × Except Fault Unit
  | .start h => f.start h
  | .enable h => (f.enable h, .ok ())
  | .disable h => (f.disable h, .ok ())
  | .drive h i => (f.change h fun d => d.drive i, .ok ())
  | .drop h => (f.drop h, .ok ())
  | .report controller axes buttons dpads age =>
      (f.receive controller ⟨axes, buttons, dpads, (f.now : Int) - age⟩, .ok ())
  | .forget controller => ({ f with hub := f.hub.erase controller }, .ok ())
  | .setCurve h axis curve =>
      (f.change h (Device.onGamepad fun g => g.setCurve axis curve), .ok ())
  | .clearCurve h axis => (f.change h (Device.onGamepad fun g => g.clearCurve axis), .ok ())

end Fleet

end RobotControl
