import RobotControl.Device.Gamepad
import RobotControl.Device.Motor
import RobotControl.Device.Relay

/-!
# Devices

Everything that takes part in the life of a robot: it is started once, switched on and off with
the mode or by the watchdog, and has a name for the log.
-/
set_option autoImplicit false

namespace RobotControl

inductive Device where
  | motor (m : Motor)
  | gamepad (g : Gamepad)
  | relay (r : Relay)

namespace Device

def name : Device → String
  | .motor m => m.name
  | .gamepad g => g.name
  | .relay r => r.name

/-- Input stays readable in every mode, so a gamepad is always on. -/
def isEnabled : Device → Bool
  | .motor m => m.controller.enabled
  | .gamepad _ => true
  | .relay r => r.on

def followsMode : Device → Bool
  | .motor _ => true
  | .gamepad _ => false
  | .relay r => r.followsMode

def watched : Device → Bool
  | .motor _ => true
  | .gamepad _ => false
  | .relay r => r.watched

def start : Device → Device × List Line × Except Fault Unit
  | .motor m =>
      let r := m.start
      (.motor r.1, r.2.1, r.2.2)
  | .gamepad g => (.gamepad g, [], .ok ())
  | .relay r =>
      let s := r.start
      (.relay s.1, [], s.2)

def enable : Device → Device
  | .motor m => .motor m.enable
  | .gamepad g => .gamepad g
  | .relay r => .relay r.enable

def disable : Device → Device × List Line
  | .motor m =>
      let r := m.disable
      (.motor r.1, r.2)
  | .gamepad g => (.gamepad g, [])
  | .relay r => (.relay r.disable, [])

def release : Device → Device × List Line
  | .motor m =>
      let r := m.release
      (.motor r.1, r.2)
  | .gamepad g => (.gamepad g, [])
  | .relay r => (.relay r, [])

inductive MotorInput where
  | speed (x : Float)
  | inverted (b : Bool)
  | brake (b : Bool)

def MotorInput.apply : MotorInput → Controller → Controller × Option Command
  | .speed x, c => c.setSpeed x
  | .inverted b, c => c.setInverted b
  | .brake b, c => c.setBrake b

def drive (d : Device) (i : MotorInput) : Device × List Line :=
  match d with
  | .motor m =>
      let r := m.change i.apply
      (.motor r.1, r.2)
  | d => (d, [])

end Device

end RobotControl
